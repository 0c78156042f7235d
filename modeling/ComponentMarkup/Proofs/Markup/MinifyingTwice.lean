import ComponentMarkup.Proofs.Markup.Minifying
import ComponentMarkup.Proofs.Markup.Reproduction

/-!
Minifying what has been minified. Main statement: `render_minified_again`, minified markup of a tree
that comes back from its markup comes back as well, where no two texts meet in blanks and no text is
taken for markup.
-/

set_option autoImplicit false

namespace ComponentMarkup

def joinNode : Node → List Node → List Node
  | .text chars, .text after :: ns => .text (chars ++ after) :: ns
  | n, ns => n :: ns

mutual

def Node.joined : Node → Node
  | .element tag children => .element tag (joined children)
  | n@(.text _) | n@(.comment _) | n@(.doctype _) => n

def joined : List Node → List Node
  | [] => []
  | n :: ns => joinNode n.joined (joined ns)

end

/-- Blanks at the end of a text do not go on in the next node. -/
def Node.ApartFrom : Node → Node → Prop
  | .text before, .text after => Apart before after
  | _, _ => True

mutual

def Node.BlanksApart (preserving : Bool) : Node → Prop
  | .element tag children => BlanksApart (preserving || preservesBlanks tag.name) children
  | .text _ | .comment _ | .doctype _ => True

/-- Outside of preserving elements no blanks go on from one text to the next. -/
def BlanksApart (preserving : Bool) : List Node → Prop
  | [] => True
  | n :: ns => n.BlanksApart preserving ∧
    (preserving = false → ∀ m ∈ ns.head?, n.ApartFrom m) ∧ BlanksApart preserving ns

end

theorem joined_text_cons (chars : List Char) (ns : List Node) :
    ∃ more ms, joined (.text chars :: ns) = .text (chars ++ more) :: ms := by
  rw [joined, Node.joined]
  cases joined ns with
  | nil => exact ⟨[], [], by simp [joinNode]⟩
  | cons m ms =>
    cases m with
    | text after => exact ⟨after, ms, rfl⟩
    | element tag children => exact ⟨[], .element tag children :: ms, by simp [joinNode]⟩
    | comment body => exact ⟨[], .comment body :: ms, by simp [joinNode]⟩
    | doctype body => exact ⟨[], .doctype body :: ms, by simp [joinNode]⟩

theorem renderNodes_joinNode {c : RenderContext} (hc : c.minify = false) (n : Node)
    (ns : List Node) : renderNodes c (joinNode n ns) = n.render c ++ renderNodes c ns := by
  unfold joinNode
  split
  · simp [renderNodes, Node.render, hc]
  · rfl

theorem renderNodes_joined (nodes : List Node) {c : RenderContext} (hc : c.minify = false) :
    renderNodes c (joined nodes) = renderNodes c nodes := by
  induction nodes using nodes_induction generalizing c with
  | nil => rfl
  | element tag children rest hchildren hrest =>
    have hinside : renderNodes (c.inside tag.name) (joined children) =
        renderNodes (c.inside tag.name) children := hchildren hc
    rw [joined, renderNodes_joinNode hc, hrest hc, Node.joined, renderNodes, Node.render,
      Node.render, hinside]
  | text _ rest hrest | comment _ rest hrest | doctype _ rest hrest =>
    rw [joined, renderNodes_joinNode hc, hrest hc, Node.joined, renderNodes]

theorem placed_joinNode (depth : Nat) (n : Node) (ns : List Node) :
    placed depth (joinNode n ns) = n.placed depth ++ placed depth ns := by
  unfold joinNode
  split
  · simp [placed, Node.placed]
  · rfl

theorem placed_joined (nodes : List Node) (depth : Nat) :
    placed depth (joined nodes) = placed depth nodes := by
  induction nodes using nodes_induction generalizing depth with
  | nil => rfl
  | element tag children rest hchildren hrest =>
    rw [joined, placed_joinNode, hrest, Node.joined, placed, Node.placed, Node.placed, hchildren]
  | text _ rest hrest | comment _ rest hrest | doctype _ rest hrest =>
    rw [joined, placed_joinNode, hrest, Node.joined, placed]

theorem openBehind_joinNode (names : List (List Char)) (n : Node) (ns : List Node) :
    openBehind names (joinNode n ns) = openBehind (n.openBehind names) ns := by
  unfold joinNode
  split
  · rfl
  · rfl

theorem openBehind_joined (nodes : List Node) (names : List (List Char)) :
    openBehind names (joined nodes) = openBehind names nodes := by
  induction nodes using nodes_induction generalizing names with
  | nil => rfl
  | element tag children rest hchildren hrest =>
    rw [joined, openBehind_joinNode, hrest, Node.joined, openBehind, Node.openBehind,
      Node.openBehind, hchildren]
  | text _ rest hrest | comment _ rest hrest | doctype _ rest hrest =>
    rw [joined, openBehind_joinNode, hrest, Node.joined, openBehind]

theorem placedAnew_joinNode (names : List (List Char)) (n : Node) (ns : List Node) :
    placedAnew names (joinNode n ns) =
      n.placedAnew names ++ placedAnew (n.openBehind names) ns := by
  unfold joinNode
  split
  · simp [placedAnew, Node.placedAnew, Node.openBehind]
  · rfl

theorem placedAnew_joined (nodes : List Node) (names : List (List Char)) :
    placedAnew names (joined nodes) = placedAnew names nodes := by
  induction nodes using nodes_induction generalizing names with
  | nil => rfl
  | element tag children rest hchildren hrest =>
    have hopen : (Node.element tag (joined children)).openBehind names =
        (Node.element tag children).openBehind names := by
      rw [Node.openBehind, Node.openBehind, openBehind_joined]
    rw [joined, placedAnew_joinNode, hrest, Node.joined, placedAnew, hopen, Node.placedAnew,
      Node.placedAnew, hchildren]
  | text _ rest hrest | comment _ rest hrest | doctype _ rest hrest =>
    rw [joined, placedAnew_joinNode, hrest, Node.joined, placedAnew]

theorem shaped_joinNode_text {chars : List Char} (hc : chars ≠ []) {ns : List Node}
    (hs : Shaped ns) : Shaped (joinNode (.text chars) ns) := by
  cases ns with
  | nil => exact ⟨hc, by simp [startsWithText], trivial⟩
  | cons n ns =>
    cases n with
    | text after => exact ⟨List.append_ne_nil_of_left_ne_nil hc after, hs.2.1, hs.2.2⟩
    | element tag children => exact ⟨hc, by simp [startsWithText, Node.isText], hs⟩
    | comment body => exact ⟨hc, by simp [startsWithText, Node.isText], hs⟩
    | doctype body => exact ⟨hc, by simp [startsWithText, Node.isText], hs⟩

theorem normalize_text_cases {chars : List Char} (hc : chars ≠ []) (preserving : Bool)
    (parent : Option (List Char)) :
    (Node.text chars).normalize preserving parent = [] ∨
      ∃ left, left ≠ [] ∧ (Node.text chars).normalize preserving parent = [.text left] := by
  rw [Node.normalize]
  cases preserving with
  | true => exact .inr ⟨chars, hc, rfl⟩
  | false =>
    rw [if_neg Bool.false_ne_true, normalizeText]
    split
    · exact .inl rfl
    · refine .inr ⟨singleSpaced chars, ?_, rfl⟩
      rw [← collapseBlanks_eq_singleSpaced]
      simpa using hc

theorem shaped_joined_normalizeNodes {nodes : List Node} (hs : Shaped nodes) (preserving : Bool)
    (parent : Option (List Char)) : Shaped (joined (normalizeNodes preserving parent nodes)) := by
  induction nodes using nodes_induction generalizing preserving parent with
  | nil => trivial
  | element tag children rest hchildren hrest =>
    obtain ⟨⟨htag, hvoid, hinside⟩, -, hshaped⟩ := hs
    refine shaped_cons ⟨htag, fun hv => ?_, hchildren hinside _ _⟩ rfl (hrest hshaped _ _)
    rw [hvoid hv]
    rfl
  | text chars rest hrest =>
    rw [normalizeNodes]
    rcases normalize_text_cases hs.1 preserving parent with hnone | ⟨left, hne, hleft⟩
    · rw [hnone]
      exact hrest hs.2.2 _ _
    · rw [hleft]
      exact shaped_joinNode_text hne (hrest hs.2.2 _ _)
  | comment body rest hrest => exact hrest hs.2.2 _ _
  | doctype body rest hrest => exact shaped_cons hs.1 rfl (hrest hs.2.2 _ _)

theorem noBlank_closing {name : List Char} (hn : isRawText name = true) :
    ∀ c ∈ closing name, isBlank c = false := by
  have hall : rawTextNames.all fun name => (closing name).all (!isBlank ·) := by decide
  have hname : (closing name).all (!isBlank ·) = true :=
    List.all_eq_true.1 hall name (by simpa [isRawText] using hn)
  intro c hc
  simpa using List.all_eq_true.1 hname c hc

/-- What begins the close tag of a raw-text element stays in its text. -/
theorem closing_infix_normalize {name chars : List Char} (hn : isRawText name = true)
    (h : closing name <:+: lowerAscii chars) (preserving : Bool) (parent : Option (List Char)) :
    ∃ left, (Node.text chars).normalize preserving parent = [.text left] ∧
      closing name <:+: lowerAscii left := by
  rw [Node.normalize]
  cases preserving with
  | true => exact ⟨chars, rfl, h⟩
  | false =>
    have hleft := infix_lowerAscii_collapseBlanks (noBlank_closing hn) h
    have hbracket : '<' ∈ lowerAscii chars := h.subset List.mem_cons_self
    have hkept : ¬(chars = [] ∨ allBlank chars = true ∧ isStructural parent = true) := by
      rintro (rfl | ⟨hblank, -⟩)
      · cases hbracket
      · obtain ⟨c, hc, hlower⟩ := List.mem_map.1 hbracket
        have hcb : isBlank c = true := List.all_eq_true.1 hblank c hc
        rw [toLower_of_isBlank hcb] at hlower
        subst hlower
        exact absurd hcb (by decide)
    rw [if_neg Bool.false_ne_true, normalizeText, if_neg hkept, ← collapseBlanks_eq_singleSpaced]
    exact ⟨_, rfl, hleft⟩

theorem beginsRaw_joined_normalizeNodes {name : List Char} (hn : isRawText name = true)
    {nodes : List Node} (hs : Shaped nodes) (h : BeginsRaw name nodes) (preserving : Bool)
    (parent : Option (List Char)) :
    BeginsRaw name (joined (normalizeNodes preserving parent nodes)) := by
  have hcut : ∀ chars, fromClosing name chars = [] ↔ ¬closing name <:+: lowerAscii chars :=
    fun _ => splitWhere_caseless_eq_nil_iff (List.cons_ne_nil _ _)
  cases nodes with
  | nil => trivial
  | cons n ns =>
    cases n with
    | element tag children => exact h.elim
    | comment body => exact h.elim
    | doctype body => exact h.elim
    | text chars =>
      rw [normalizeNodes]
      by_cases hclosing : closing name <:+: lowerAscii chars
      · obtain ⟨left, hleft, hkept⟩ := closing_infix_normalize hn hclosing preserving parent
        obtain ⟨more, ms, hmore⟩ :=
          joined_text_cons left (normalizeNodes preserving parent ns)
        rw [hleft, List.singleton_append, hmore]
        intro hnone
        rw [hcut, lowerAscii_append] at hnone
        exact absurd (hkept.trans (List.prefix_append _ _).isInfix) hnone
      · obtain rfl := h ((hcut chars).2 hclosing)
        rcases normalize_text_cases hs.1 preserving parent with hnone | ⟨left, -, hleft⟩
        · rw [hnone]
          trivial
        · rw [hleft]
          exact fun _ => rfl

theorem rawAsText_joinNode {n : Node} {ns : List Node} (hn : n.RawAsText) (hns : RawAsText ns) :
    RawAsText (joinNode n ns) := by
  unfold joinNode
  split
  · exact ⟨trivial, hns.2⟩
  · exact ⟨hn, hns⟩

theorem rawAsText_joined_normalizeNodes {nodes : List Node} (hs : Shaped nodes)
    (h : RawAsText nodes) (preserving : Bool) (parent : Option (List Char)) :
    RawAsText (joined (normalizeNodes preserving parent nodes)) := by
  induction nodes using nodes_induction generalizing preserving parent with
  | nil => trivial
  | element tag children rest hchildren hrest =>
    obtain ⟨⟨-, -, hinside⟩, -, hshaped⟩ := hs
    obtain ⟨⟨hbegins, hraw⟩, hrawRest⟩ := h
    exact rawAsText_joinNode
      ⟨fun hn => beginsRaw_joined_normalizeNodes hn hinside (hbegins hn) _ _,
        hchildren hinside hraw _ _⟩
      (hrest hshaped hrawRest _ _)
  | text chars rest hrest =>
    have hbehind := hrest hs.2.2 h.2 preserving parent
    rw [normalizeNodes]
    rcases normalize_text_cases hs.1 preserving parent with hnone | ⟨left, -, hleft⟩
    · rw [hnone]
      exact hbehind
    · rw [hleft]
      exact rawAsText_joinNode trivial hbehind
  | comment body rest hrest => exact hrest hs.2.2 h.2 _ _
  | doctype body rest hrest => exact rawAsText_joinNode trivial (hrest hs.2.2 h.2 _ _)

theorem openBehind_append (names : List (List Char)) (a b : List Node) :
    openBehind names (a ++ b) = openBehind (openBehind names a) b := by
  induction a generalizing names with
  | nil => rfl
  | cons n a ih => exact ih _

theorem openBehind_normalizeNodes (nodes : List Node) (preserving : Bool)
    (parent : Option (List Char)) (names : List (List Char)) :
    openBehind names (normalizeNodes preserving parent nodes) = openBehind names nodes := by
  induction nodes using nodes_induction generalizing preserving parent names with
  | nil => rfl
  | element tag children rest hchildren hrest =>
    rw [normalizeNodes, Node.normalize, List.singleton_append, openBehind, hrest, Node.openBehind,
      hchildren, openBehind, Node.openBehind]
  | text chars rest hrest =>
    have hnames : openBehind names ((Node.text chars).normalize preserving parent) = names := by
      rw [Node.normalize, normalizeText]
      split
      · rfl
      · split <;> rfl
    rw [normalizeNodes, openBehind_append, hnames, hrest, openBehind, Node.openBehind]
  | comment _ rest hrest | doctype _ rest hrest => exact hrest preserving parent names

theorem length_placedAnew {nodes : List Node} (hs : Shaped nodes) (names : List (List Char))
    (depth : Nat) : (placedAnew names nodes).length = (placed depth nodes).length := by
  induction nodes using nodes_induction generalizing names depth with
  | nil => rfl
  | element tag children rest hchildren hrest =>
    obtain ⟨⟨-, hvoid, hinside⟩, -, hshaped⟩ := hs
    have hlen : ((Node.element tag children).placedAnew names).length =
        ((Node.element tag children).placed depth).length := by
      rw [Node.placedAnew, Node.placed, List.length_cons, List.length_cons]
      cases hv : isVoid tag.name with
      | true =>
        rw [hvoid hv]
        rfl
      | false => exact congrArg (· + 1) (hchildren hinside (tag.name :: names) (depth + 1))
    rw [placedAnew, placed, List.length_append, List.length_append, hlen,
      hrest hshaped _ depth]
  | text _ rest hrest | comment _ rest hrest | doctype _ rest hrest =>
    simp [placedAnew, placed, Node.placedAnew, Node.placed, hrest hs.2.2 _ depth]

theorem placedAnew_cons_eq {n : Node} {ns : List Node} (hs : Shaped (n :: ns))
    {names : List (List Char)} {depth : Nat}
    (h : placedAnew names (n :: ns) = placed depth (n :: ns)) :
    n.placedAnew names = n.placed depth ∧ placedAnew (n.openBehind names) ns = placed depth ns := by
  have hfirst : Shaped [n] := ⟨hs.1, by simp [startsWithText], trivial⟩
  have hlen := length_placedAnew hfirst names depth
  simp only [placedAnew, placed, List.append_nil] at hlen
  rw [placedAnew, placed] at h
  exact List.append_inj h hlen

theorem placedAnew_normalizeNodes {nodes : List Node} (hs : Shaped nodes)
    {names : List (List Char)} {depth : Nat} (h : placedAnew names nodes = placed depth nodes)
    (preserving : Bool) (parent : Option (List Char)) :
    placedAnew names (normalizeNodes preserving parent nodes) =
      placed depth (normalizeNodes preserving parent nodes) := by
  induction nodes using nodes_induction generalizing names depth preserving parent with
  | nil => rfl
  | element tag children rest hchildren hrest =>
    obtain ⟨hn, hns⟩ := placedAnew_cons_eq hs h
    obtain ⟨⟨-, hvoid, hinside⟩, -, hshaped⟩ := hs
    rw [Node.placedAnew, Node.placed] at hn
    obtain ⟨htag, hn⟩ := List.cons.inj hn
    rw [normalizeNodes, Node.normalize, List.singleton_append, placedAnew, placed,
      Node.openBehind, openBehind_normalizeNodes]
    have hbehind := hrest hshaped hns preserving parent
    rw [Node.openBehind] at hbehind
    rw [hbehind, Node.placedAnew, Node.placed, htag]
    cases hv : isVoid tag.name with
    | true =>
      rw [hvoid hv]
      rfl
    | false =>
      rw [hv, if_neg Bool.false_ne_true] at hn
      rw [if_neg Bool.false_ne_true, hchildren hinside hn]
  | text chars rest hrest =>
    obtain ⟨hn, hns⟩ := placedAnew_cons_eq hs h
    have hbehind := hrest hs.2.2 hns preserving parent
    rw [normalizeNodes]
    rcases normalize_text_cases hs.1 preserving parent with hnone | ⟨left, -, hleft⟩
    · rw [hnone]
      exact hbehind
    · obtain ⟨c, cs, rfl⟩ := List.exists_cons_of_ne_nil hs.1
      have hdepth : names.length = depth := (Prod.mk.inj (List.cons.inj hn).1).1
      rw [hleft, List.singleton_append, placedAnew, placed, Node.placedAnew, Node.placed, hdepth]
      exact congrArg _ hbehind
  | comment body rest hrest =>
    exact hrest hs.2.2 (placedAnew_cons_eq hs h).2 preserving parent
  | doctype body rest hrest =>
    obtain ⟨hn, hns⟩ := placedAnew_cons_eq hs h
    have hbehind := hrest hs.2.2 hns preserving parent
    rw [normalizeNodes, Node.normalize, List.singleton_append, placedAnew, placed, hn]
    exact congrArg _ hbehind

theorem normal_joinNode_text {preserving : Bool} {parent : Option (List Char)} {chars : List Char}
    {ns : List Node} (hn : (Node.text chars).Normal preserving parent)
    (hns : Normal preserving parent ns) (hj : Normal preserving parent (joined ns))
    (ha : preserving = false → ∀ m ∈ ns.head?, (Node.text chars).ApartFrom m) :
    Normal preserving parent (joinNode (.text chars) (joined ns)) := by
  cases ns with
  | nil => exact ⟨hn, trivial⟩
  | cons m ms =>
    cases m with
    | text after =>
      obtain ⟨more, ks, hmore⟩ := joined_text_cons after ms
      rw [hmore] at hj ⊢
      refine ⟨fun hp => ?_, hj.2⟩
      obtain ⟨⟨hne, hkept⟩, hcollapsed⟩ := hn hp
      have hafter : after ≠ [] := (hns.1 hp).1.1
      have hapart : Apart chars (after ++ more) := by
        intro c hc d hd
        rw [List.head?_append_of_ne_nil _ hafter] at hd
        exact ha hp _ rfl c hc d hd
      refine ⟨⟨List.append_ne_nil_of_left_ne_nil hne _, fun hblank => hkept ⟨?_, hblank.2⟩⟩,
        hcollapsed.append (hj.1 hp).2 hapart⟩
      have hall := hblank.1
      rw [allBlank, List.all_append, Bool.and_eq_true] at hall
      exact hall.1
    | element tag children => exact ⟨hn, hj⟩
    | comment body => exact ⟨hn, hj⟩
    | doctype body => exact ⟨hn, hj⟩

theorem Normal.joined {nodes : List Node} {preserving : Bool} {parent : Option (List Char)}
    (h : Normal preserving parent nodes) (ha : BlanksApart preserving nodes) :
    Normal preserving parent (joined nodes) := by
  induction nodes using nodes_induction generalizing preserving parent with
  | nil => trivial
  | element tag children rest hchildren hrest =>
    exact ⟨hchildren h.1 ha.1, hrest h.2 ha.2.2⟩
  | text chars rest hrest => exact normal_joinNode_text h.1 h.2 (hrest h.2 ha.2.2) ha.2.1
  | comment body rest hrest => exact h.1.elim
  | doctype body rest hrest => exact ⟨trivial, hrest h.2 ha.2.2⟩

/-- A tree that comes back from its markup is minified once and for all, if in what is left of it no
text that ends in a blank stands directly before one that begins with one, outside of preserving
elements, and no text is taken for markup once neighbouring texts are one: what is left comes back as
well, and nothing more is left out or collapsed. -/
theorem render_minified_again {nodes : List Node}
    (hr : unnumbered (parse (render false nodes)) = unnumbered nodes)
    (ha : BlanksApart false (normalize nodes)) (hp : Plain none true (joined (normalize nodes))) :
    render true (parse (render true nodes)) = render true nodes ∧
      unnumbered (parse (render true nodes)) = unnumbered (joined (normalize nodes)) ∧
      normalize (joined (normalize nodes)) = joined (normalize nodes) := by
  obtain ⟨hs, hraws, -, hplaced⟩ := plain_of_reproduced hr
  have hnormal : normalize (joined (normalize nodes)) = joined (normalize nodes) :=
    ((normal_normalizeNodes nodes false none).joined ha).normalizeNodes_eq
  have hwrite : render true nodes = render false (joined (normalize nodes)) := by
    rw [render, render, renderNodes_joined _ rfl]
    exact renderNodes_normalizeNodes nodes rfl rfl
  have hshaped : Shaped (joined (normalize nodes)) := shaped_joined_normalizeNodes hs false none
  have hrawsLeft : RawAsText (joined (normalize nodes)) :=
    rawAsText_joined_normalizeNodes hs hraws false none
  -- the depths of the minified tree are those that are read
  have hdepths : placed 0 (parse (render true nodes)) = placed 0 (joined (normalize nodes)) := by
    rw [hwrite, placed_parse_render hshaped hrawsLeft hp, placedAnew_joined, placed_joined]
    exact placedAnew_normalizeNodes hs hplaced false none
  have hback : unnumbered (parse (render true nodes)) = unnumbered (joined (normalize nodes)) := by
    have hend := endsSiblings_nil 0
    refine (unnumbered_eq_of_placed (shaped_parse _) hshaped hend hend ?_).1
    rw [hdepths]
  refine ⟨?_, hback, hnormal⟩
  have hagain : render true (parse (render true nodes)) =
      render true (joined (normalize nodes)) := by
    rw [render, ← renderNodes_unnumbered, hback, renderNodes_unnumbered]
    rfl
  have hminified : render true (joined (normalize nodes)) =
      render false (normalize (joined (normalize nodes))) :=
    renderNodes_normalizeNodes _ rfl rfl
  rw [hagain, hminified, hnormal, hwrite]

theorem parse_page :
    parse "<p>a\n <!--c-->< b</p>\n<pre> \n</pre>".toList =
      [.element ⟨['p'], [], 1⟩ [.text ['a', '\n', ' '], .comment ['c'], .text ['<', ' ', 'b']],
        .text ['\n'], .element ⟨['p', 'r', 'e'], [], 3⟩ [.text [' ', '\n']]] := by
  have h₁ : Token.next "<p>a\n <!--c-->< b</p>\n<pre> \n</pre>".toList =
      some (⟨[], .tagOpen ['p'], "<p".toList⟩,
        ">a\n <!--c-->< b</p>\n<pre> \n</pre>".toList) := by cbv
  have ha₁ : readAttributes .start ">a\n <!--c-->< b</p>\n<pre> \n</pre>".toList =
      ⟨[], false, ['>'], "a\n <!--c-->< b</p>\n<pre> \n</pre>".toList⟩ := by cbv
  have h₂ : Token.next "a\n <!--c-->< b</p>\n<pre> \n</pre>".toList =
      some (⟨[], .text, ['a', '\n', ' ']⟩, "<!--c-->< b</p>\n<pre> \n</pre>".toList) := by cbv
  have h₃ : Token.next "<!--c-->< b</p>\n<pre> \n</pre>".toList =
      some (⟨[], .comment ['c'], "<!--c-->".toList⟩, "< b</p>\n<pre> \n</pre>".toList) := by cbv
  have h₄ : Token.next "< b</p>\n<pre> \n</pre>".toList =
      some (⟨[], .text, ['<']⟩, " b</p>\n<pre> \n</pre>".toList) := by cbv
  have h₅ : Token.next " b</p>\n<pre> \n</pre>".toList =
      some (⟨[], .text, [' ', 'b']⟩, "</p>\n<pre> \n</pre>".toList) := by cbv
  have h₆ : Token.next "</p>\n<pre> \n</pre>".toList =
      some (⟨[], .tagClose ['p'], "</p>".toList⟩, "\n<pre> \n</pre>".toList) := by cbv
  have h₇ : Token.next "\n<pre> \n</pre>".toList =
      some (⟨[], .text, ['\n']⟩, "<pre> \n</pre>".toList) := by cbv
  have h₈ : Token.next "<pre> \n</pre>".toList =
      some (⟨[], .tagOpen ['p', 'r', 'e'], "<pre".toList⟩, "> \n</pre>".toList) := by cbv
  have ha₈ : readAttributes .start "> \n</pre>".toList =
      ⟨[], false, ['>'], " \n</pre>".toList⟩ := by cbv
  have hr₈ : splitRawText ['p', 'r', 'e'] false " \n</pre>".toList =
      ([], " \n</pre>".toList) := rfl
  have h₉ : Token.next " \n</pre>".toList =
      some (⟨[], .text, [' ', '\n']⟩, "</pre>".toList) := by cbv
  have h₀ : Token.next "</pre>".toList =
      some (⟨[], .tagClose ['p', 'r', 'e'], "</pre>".toList⟩, []) := by cbv
  simp only [parse, pieces, TreeBuilder.readPieces_open h₁ ha₁ rfl, TreeBuilder.readPieces_next h₂,
    TreeBuilder.readPieces_next h₃, TreeBuilder.readPieces_next h₄, TreeBuilder.readPieces_next h₅,
    TreeBuilder.readPieces_next h₆, TreeBuilder.readPieces_next h₇,
    TreeBuilder.readPieces_open h₈ ha₈ hr₈, TreeBuilder.readPieces_next h₉,
    TreeBuilder.readPieces_next h₀, TreeBuilder.readPieces_nil]
  rfl

/-- A comment between texts, a bracket that opens nothing, white space that is left out and white
space that is kept. -/
theorem render_minified_again_page :
    let nodes : List Node := [.element ⟨['p'], [], 1⟩ [.text ['a', '\n', ' '], .comment ['c'],
      .text ['<', ' ', 'b']], .text ['\n'], .element ⟨['p', 'r', 'e'], [], 3⟩ [.text [' ', '\n']]]
    unnumbered (parse (render false nodes)) = unnumbered nodes ∧
      render true nodes = "<p>a < b</p><pre> \n</pre>".toList ∧
      render true (parse (render true nodes)) = render true nodes := by
  intro nodes
  have hwrite : render false nodes = "<p>a\n <!--c-->< b</p>\n<pre> \n</pre>".toList := by rfl
  have hr : unnumbered (parse (render false nodes)) = unnumbered nodes := by rw [hwrite, parse_page]
  have hnormalize : normalize nodes = [.element ⟨['p'], [], 1⟩ [.text ['a', ' '],
      .text ['<', ' ', 'b']], .element ⟨['p', 'r', 'e'], [], 3⟩ [.text [' ', '\n']]] := by
    have hnames : preservesBlanks ['p'] = false ∧ preservesBlanks ['p', 'r', 'e'] = true := by decide
    have htexts : singleSpaced ['a', '\n', ' '] = ['a', ' '] ∧
        singleSpaced ['<', ' ', 'b'] = ['<', ' ', 'b'] := by decide
    have hblank : allBlank ['a', '\n', ' '] = false ∧ allBlank ['<', ' ', 'b'] = false ∧
        allBlank ['\n'] = true := by decide
    simp [nodes, normalize, normalizeNodes, Node.normalize, normalizeText, isStructural, hnames,
      htexts, hblank]
  have hbracket : isBlank '<' = false := by decide
  have ha : BlanksApart false (normalize nodes) := by
    rw [hnormalize]
    simp [BlanksApart, Node.BlanksApart, Node.ApartFrom, Apart, hbracket]
  have hp : Plain none true (joined (normalize nodes)) := by
    have hname : isRawText ['p'] = false ∧ isRawText ['p', 'r', 'e'] = false := by decide
    have hplain : StaysText false ['a', ' ', '<', ' ', 'b'] ∧ StaysText false [' ', '\n'] :=
      ⟨.inl (by decide), .inl (by decide)⟩
    rw [hnormalize]
    simpa [joined, Node.joined, joinNode, Plain, behindRaw, hname] using hplain
  exact ⟨hr, by rfl, (render_minified_again hr ha hp).1⟩

theorem parse_meeting_blanks :
    parse "<p>a <!--c--> b</p>".toList =
      [.element ⟨['p'], [], 1⟩ [.text ['a', ' '], .comment ['c'], .text [' ', 'b']]] ∧
    parse "<p>a  b</p>".toList = [.element ⟨['p'], [], 1⟩ [.text ['a', ' ', ' ', 'b']]] := by
  have hp : Token.next "</p>".toList = some (⟨[], .tagClose ['p'], "</p>".toList⟩, []) := by cbv
  constructor
  · have h₁ : Token.next "<p>a <!--c--> b</p>".toList =
        some (⟨[], .tagOpen ['p'], "<p".toList⟩, ">a <!--c--> b</p>".toList) := by cbv
    have ha : readAttributes .start ">a <!--c--> b</p>".toList =
        ⟨[], false, ['>'], "a <!--c--> b</p>".toList⟩ := by cbv
    have h₂ : Token.next "a <!--c--> b</p>".toList =
        some (⟨[], .text, ['a', ' ']⟩, "<!--c--> b</p>".toList) := by cbv
    have h₃ : Token.next "<!--c--> b</p>".toList =
        some (⟨[], .comment ['c'], "<!--c-->".toList⟩, " b</p>".toList) := by cbv
    have h₄ : Token.next " b</p>".toList =
        some (⟨[], .text, [' ', 'b']⟩, "</p>".toList) := by cbv
    rw [parse, pieces, TreeBuilder.readPieces_open h₁ ha rfl, TreeBuilder.readPieces_next h₂,
      TreeBuilder.readPieces_next h₃, TreeBuilder.readPieces_next h₄,
      TreeBuilder.readPieces_next hp, TreeBuilder.readPieces_nil]
    rfl
  · have h₁ : Token.next "<p>a  b</p>".toList =
        some (⟨[], .tagOpen ['p'], "<p".toList⟩, ">a  b</p>".toList) := by cbv
    have ha : readAttributes .start ">a  b</p>".toList =
        ⟨[], false, ['>'], "a  b</p>".toList⟩ := by cbv
    have h₂ : Token.next "a  b</p>".toList =
        some (⟨[], .text, ['a', ' ', ' ', 'b']⟩, "</p>".toList) := by cbv
    rw [parse, pieces, TreeBuilder.readPieces_open h₁ ha rfl, TreeBuilder.readPieces_next h₂,
      TreeBuilder.readPieces_next hp, TreeBuilder.readPieces_nil]
    rfl

theorem parse_meeting_brackets :
    parse "<<!--x-->b>".toList = [.text ['<'], .comment ['x'], .text ['b', '>']] ∧
    parse "<b>".toList = [.element ⟨['b'], [], 1⟩ []] := by
  constructor
  · have h₁ : Token.next "<<!--x-->b>".toList =
        some (⟨[], .text, ['<']⟩, "<!--x-->b>".toList) := by cbv
    have h₂ : Token.next "<!--x-->b>".toList =
        some (⟨[], .comment ['x'], "<!--x-->".toList⟩, ['b', '>']) := by cbv
    have h₃ : Token.next ['b', '>'] = some (⟨[], .text, ['b', '>']⟩, []) := by cbv
    rw [parse, pieces, TreeBuilder.readPieces_next h₁, TreeBuilder.readPieces_next h₂,
      TreeBuilder.readPieces_next h₃, TreeBuilder.readPieces_nil]
    rfl
  · have h₁ : Token.next "<b>".toList = some (⟨[], .tagOpen ['b'], "<b".toList⟩, ['>']) := by cbv
    have ha : readAttributes .start ['>'] = ⟨[], false, ['>'], []⟩ := by cbv
    rw [parse, pieces, TreeBuilder.readPieces_open h₁ ha rfl, TreeBuilder.readPieces_nil]
    rfl

/-- A close tag broken by a no-break space is whole once its blanks are one space. -/
theorem parse_collapsed_closeTag :
    parse "</a \u00a0>".toList = [.text "</a \u00a0>".toList] ∧ parse "</a >".toList = [] := by
  constructor
  · have h₁ : Token.next "</a \u00a0>".toList =
        some (⟨[], .error, "</a ".toList⟩, "\u00a0>".toList) := by cbv
    have h₂ : Token.next "\u00a0>".toList = some (⟨[], .text, "\u00a0>".toList⟩, []) := by cbv
    rw [parse, pieces, TreeBuilder.readPieces_next h₁, TreeBuilder.readPieces_next h₂,
      TreeBuilder.readPieces_nil]
    rfl
  · have h₁ : Token.next "</a >".toList =
        some (⟨[], .tagClose ['a'], "</a >".toList⟩, []) := by cbv
    rw [parse, pieces, TreeBuilder.readPieces_next h₁, TreeBuilder.readPieces_nil]
    rfl

/-- Trees that come back from their markup, of which minified markup does not. -/
theorem render_minified_changes :
    (unnumbered (parse (render false
        [.element ⟨['p'], [], 1⟩ [.text ['a', ' '], .comment ['c'], .text [' ', 'b']]])) =
      unnumbered [.element ⟨['p'], [], 1⟩ [.text ['a', ' '], .comment ['c'], .text [' ', 'b']]] ∧
    render true (parse (render true
        [.element ⟨['p'], [], 1⟩ [.text ['a', ' '], .comment ['c'], .text [' ', 'b']]])) ≠
      render true [.element ⟨['p'], [], 1⟩ [.text ['a', ' '], .comment ['c'], .text [' ', 'b']]]) ∧
    (unnumbered (parse (render false [.text ['<'], .comment ['x'], .text ['b', '>']])) =
      unnumbered [.text ['<'], .comment ['x'], .text ['b', '>']] ∧
    render true (parse (render true [.text ['<'], .comment ['x'], .text ['b', '>']])) ≠
      render true [.text ['<'], .comment ['x'], .text ['b', '>']]) ∧
    unnumbered (parse (render false [.text "</a \u00a0>".toList])) =
      unnumbered [.text "</a \u00a0>".toList] ∧
    render true (parse (render true [.text "</a \u00a0>".toList])) ≠
      render true [.text "</a \u00a0>".toList] := by
  have hne : ∀ {nodes ms : List Node} {source written : List Char},
      parse source = nodes ∧ parse written = ms → render false nodes = source →
        render true nodes = written → render true ms ≠ written →
        unnumbered (parse (render false nodes)) = unnumbered nodes ∧
          render true (parse (render true nodes)) ≠ render true nodes := by
    rintro nodes ms source written ⟨hnodes, hms⟩ hplain hmin hneq
    rw [hplain, hmin, hnodes, hms]
    exact ⟨rfl, hneq⟩
  exact ⟨hne parse_meeting_blanks rfl (by decide) (by decide),
    hne parse_meeting_brackets rfl (by decide) (by decide),
    hne parse_collapsed_closeTag rfl (by decide) (by decide)⟩

end ComponentMarkup
