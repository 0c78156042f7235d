import ComponentMarkup.Proofs.Markup.Shape
import ComponentMarkup.Proofs.Text.Collapsing

set_option autoImplicit false

namespace ComponentMarkup

def normalizeText (parent : Option (List Char)) (chars : List Char) : List Node :=
  if chars = [] ∨ allBlank chars = true ∧ isStructural parent = true then []
  else [.text (singleSpaced chars)]

mutual

def Node.normalize (preserving : Bool) (parent : Option (List Char)) : Node → List Node
  | .element tag children =>
    [.element tag
      (normalizeNodes (preserving || preservesBlanks tag.name) (some tag.name) children)]
  | .text chars => if preserving then [.text chars] else normalizeText parent chars
  | .comment _ => []
  | n@(.doctype _) => [n]

/-- Nodes without comments and, outside of preserving elements, with little white space. -/
def normalizeNodes (preserving : Bool) (parent : Option (List Char)) : List Node → List Node
  | [] => []
  | n :: ns => n.normalize preserving parent ++ normalizeNodes preserving parent ns

end

def normalize (nodes : List Node) : List Node := normalizeNodes false none nodes

inductive Solid where
  | opened (tag : Tag)
  | closed
  | doctype (body : List Char)
  | char (c : Char)
  deriving DecidableEq, Repr

mutual

def Node.solids : Node → List Solid
  | .element tag children => .opened tag :: (solids children ++ [.closed])
  | .text chars => (chars.filter (!isBlank ·)).map .char
  | .comment _ => []
  | .doctype body => [.doctype body]

/-- The elements with their attributes, the doctypes, and the characters of all texts that are no
blanks, in the order in which they stand. -/
def solids : List Node → List Solid
  | [] => []
  | n :: ns => n.solids ++ solids ns

end

variable {preserving : Bool} {parent : Option (List Char)}

theorem solids_append (a b : List Node) : solids (a ++ b) = solids a ++ solids b := by
  induction a with
  | nil => rfl
  | cons n a ih => simp [solids, ih]

theorem renderNodes_append (c : RenderContext) (a b : List Node) :
    renderNodes c (a ++ b) = renderNodes c a ++ renderNodes c b := by
  induction a with
  | nil => rfl
  | cons n a ih => simp [renderNodes, ih]

theorem renderNodes_normalizeText (c : RenderContext) (hc : c.minify = false)
    (parent : Option (List Char)) (chars : List Char) :
    renderNodes c (normalizeText parent chars) = minifyText parent chars := by
  unfold normalizeText minifyText
  by_cases hblank : allBlank chars = true ∧ isStructural parent = true
  · have hdropped : (allBlank chars && isStructural parent) = true := by simpa using hblank
    rw [if_pos (.inr hblank), if_pos hdropped]
    rfl
  · have hkept : ¬(allBlank chars && isStructural parent) = true := by simpa using hblank
    rw [if_neg hkept]
    by_cases hempty : chars = []
    · rw [if_pos (.inl hempty), hempty]
      rfl
    · rw [if_neg (not_or.2 ⟨hempty, hblank⟩), collapseBlanks_eq_singleSpaced]
      simp [renderNodes, Node.render, hc]

/-- The writer carries through the tree what the normal form depends on: whether an element around
preserves blanks, and the parent. -/
theorem renderNodes_normalizeNodes (nodes : List Node) {c d : RenderContext} (hc : c.minify = true)
    (hd : d.minify = false) :
    renderNodes c nodes = renderNodes d (normalizeNodes c.preserving c.parent nodes) := by
  induction nodes using nodes_induction generalizing c d with
  | nil => rfl
  | element tag children rest hchildren hrest =>
    have hinside : renderNodes (c.inside tag.name) children =
        renderNodes (d.inside tag.name)
          (normalizeNodes (c.inside tag.name).preserving (c.inside tag.name).parent children) :=
      hchildren hc hd
    rw [normalizeNodes, Node.normalize, renderNodes_append, ← hrest hc hd, renderNodes, Node.render,
      hinside]
    simp [renderNodes, Node.render, RenderContext.inside]
  | text chars rest hrest =>
    rw [normalizeNodes, renderNodes_append, ← hrest hc hd, renderNodes, Node.render, Node.normalize]
    cases hp : c.preserving with
    | true => simp [renderNodes, Node.render, hd]
    | false => simp [renderNodes_normalizeText d hd, hc]
  | comment body rest hrest =>
    simp [normalizeNodes, Node.normalize, renderNodes, Node.render, hc, hrest hc hd]
  | doctype body rest hrest =>
    simp [normalizeNodes, Node.normalize, renderNodes, Node.render, hrest hc hd]

mutual

def Node.Normal (preserving : Bool) (parent : Option (List Char)) : Node → Prop
  | .element tag children =>
    Normal (preserving || preservesBlanks tag.name) (some tag.name) children
  | .text chars => preserving = false →
    (chars ≠ [] ∧ ¬(allBlank chars = true ∧ isStructural parent = true)) ∧ Collapsed chars
  | .comment _ => False
  | .doctype _ => True

def Normal (preserving : Bool) (parent : Option (List Char)) : List Node → Prop
  | [] => True
  | n :: ns => n.Normal preserving parent ∧ Normal preserving parent ns

end

theorem Normal.append {a b : List Node} (ha : Normal preserving parent a)
    (hb : Normal preserving parent b) : Normal preserving parent (a ++ b) := by
  induction a with
  | nil => exact hb
  | cons n a ih => exact ⟨ha.1, ih ha.2⟩

theorem normal_normalizeText (parent : Option (List Char)) (chars : List Char) :
    Normal false parent (normalizeText parent chars) := by
  unfold normalizeText
  split
  · trivial
  · rename_i h
    rw [← collapseBlanks_eq_singleSpaced]
    refine ⟨fun _ => ⟨?_, collapsed_collapseBlanks chars⟩, trivial⟩
    simpa using h

theorem normal_normalizeNodes (nodes : List Node) (preserving : Bool)
    (parent : Option (List Char)) :
    Normal preserving parent (normalizeNodes preserving parent nodes) := by
  induction nodes using nodes_induction generalizing preserving parent with
  | nil => trivial
  | element tag children rest hchildren hrest =>
    exact ⟨hchildren _ _, hrest preserving parent⟩
  | text chars rest hrest =>
    refine Normal.append ?_ (hrest preserving parent)
    rw [Node.normalize]
    cases preserving with
    | true => exact ⟨nofun, trivial⟩
    | false => exact normal_normalizeText parent chars
  | comment body rest hrest => exact hrest preserving parent
  | doctype body rest hrest => exact ⟨trivial, hrest preserving parent⟩

theorem Normal.normalizeNodes_eq {nodes : List Node} (h : Normal preserving parent nodes) :
    normalizeNodes preserving parent nodes = nodes := by
  induction nodes using nodes_induction generalizing preserving parent with
  | nil => rfl
  | element tag children rest hchildren hrest =>
    rw [normalizeNodes, Node.normalize, hchildren h.1, hrest h.2]
    rfl
  | text chars rest hrest =>
    obtain ⟨hchars, hr⟩ := h
    rw [normalizeNodes, hrest hr, Node.normalize]
    cases preserving with
    | true => rfl
    | false =>
      obtain ⟨hkept, hcollapsed⟩ := hchars rfl
      rw [if_neg Bool.false_ne_true, normalizeText, if_neg (not_or.2 hkept),
        ← collapseBlanks_eq_singleSpaced, hcollapsed.collapseBlanks_eq]
      rfl
  | comment body rest hrest => exact absurd h.1 id
  | doctype body rest hrest =>
    rw [normalizeNodes, Node.normalize, hrest h.2]
    rfl

theorem normalize_idem (nodes : List Node) : normalize (normalize nodes) = normalize nodes :=
  (normal_normalizeNodes nodes false none).normalizeNodes_eq

theorem solids_normalizeText (parent : Option (List Char)) (chars : List Char) :
    solids (normalizeText parent chars) = (Node.text chars).solids := by
  unfold normalizeText Node.solids
  split
  · rename_i h
    -- a text that is left out has nothing but blanks
    have hblank : allBlank chars = true := by
      rcases h with rfl | ⟨h, -⟩
      · rfl
      · exact h
    rw [allBlank_iff_filter.1 hblank]
    rfl
  · simp only [solids, Node.solids, ← collapseBlanks_eq_singleSpaced, collapseBlanks,
      filter_collapseFrom, List.append_nil]

theorem solids_normalizeNodes (nodes : List Node) (preserving : Bool)
    (parent : Option (List Char)) :
    solids (normalizeNodes preserving parent nodes) = solids nodes := by
  induction nodes using nodes_induction generalizing preserving parent with
  | nil => rfl
  | element tag children rest hchildren hrest =>
    simp [normalizeNodes, Node.normalize, solids, Node.solids, hchildren, hrest]
  | text chars rest hrest =>
    rw [normalizeNodes, solids_append, hrest, solids, Node.normalize]
    cases preserving with
    | true => simp [solids]
    | false => rw [if_neg Bool.false_ne_true, solids_normalizeText]
  | comment _ rest hrest | doctype _ rest hrest =>
    simp [normalizeNodes, Node.normalize, solids, Node.solids, hrest]

/-- Minified markup is the markup of the normal form, which has a normal form itself and keeps
everything but comments and white space, in the same order. -/
theorem render_minified (nodes : List Node) :
    render true nodes = render false (normalize nodes) ∧
      normalize (normalize nodes) = normalize nodes ∧ solids (normalize nodes) = solids nodes :=
  ⟨renderNodes_normalizeNodes nodes rfl rfl, normalize_idem nodes,
    solids_normalizeNodes nodes false none⟩

end ComponentMarkup
