import ComponentMarkup.Proofs.Markup.Children
import ComponentMarkup.Proofs.Markup.Rereading

set_option autoImplicit false

namespace ComponentMarkup

/-- A close tag of this name begins here: its name in any case of ASCII, white space, a bracket. -/
def beginsCloseTag (name s : List Char) : Bool :=
  startsWithCaseless (closing name) s &&
    ((s.drop (closing name).length).dropWhile isSpace).head? == some '>'

/-- The first place that begins as the close tag does, if there is one, is the close tag. -/
def firstIsCloseTag (name s : List Char) : Bool :=
  let found := (splitWhere (startsWithCaseless (closing name)) s).2
  found.isEmpty || beginsCloseTag name found

theorem eq_of_toLower {c d : Char} (h : c.toLower = d) (hd : d.isAlpha = false) : c = d := by
  have hu : ¬c.isUpper = true := by
    intro hu
    have hl : c.toLower.isLower = true := by simp [Char.isAlpha, hu]
    rw [h] at hl
    simp [Char.isAlpha, hl] at hd
  rwa [Char.toLower_eq_of_not_isUpper hu] at h

theorem isAlpha_of_toLower {c : Char} (h : c.toLower.isAlpha = true) : c.isAlpha = true := by
  by_cases hu : c.isUpper = true
  · simp [Char.isAlpha, hu]
  · rwa [Char.toLower_eq_of_not_isUpper hu] at h

theorem isBlank_of_isSpace {c : Char} (h : isSpace c = true) : isBlank c = true := by
  have hall : ∀ d ∈ [' ', '\t', '\r', '\n', '\x0c'], isBlank d = true := by
    simp [isBlank, blanks]
  exact hall c (List.contains_iff_mem.1 h)

theorem isBlank_of_isAlpha {c : Char} (h : c.isAlpha = true) : isBlank c = false := by
  have hall : ∀ d ∈ blanks, d.isAlpha = false := by
    simp [blanks]
  rw [isBlank, List.contains_eq_mem, decide_eq_false_iff_not]
  intro hc
  rw [hall c hc] at h
  cases h

theorem beginsCloseTag_eq_true {name s : List Char} (h : beginsCloseTag name s = true) :
    ∃ written space rest, s = '<' :: '/' :: (written ++ (space ++ '>' :: rest)) ∧
      lowerAscii written = name ∧ ∀ c ∈ space, isSpace c = true := by
  rw [beginsCloseTag, Bool.and_eq_true, startsWithCaseless, beq_iff_eq, beq_iff_eq] at h
  obtain ⟨hown, hend⟩ := h
  have hs := List.take_append_drop (closing name).length s
  generalize s.take (closing name).length = own at hown hs
  generalize s.drop (closing name).length = after at hend hs
  rw [closing, List.map_eq_cons_iff] at hown
  -- only letters have a case: the bracket and the slash are written as they are
  obtain ⟨c, own, rfl, hc, hown⟩ := hown
  obtain ⟨d, written, rfl, hd, hwritten⟩ := List.map_eq_cons_iff.1 hown
  obtain rfl := eq_of_toLower hc (by decide)
  obtain rfl := eq_of_toLower hd (by decide)
  have hafter := List.takeWhile_append_dropWhile (p := isSpace) (l := after)
  cases he : after.dropWhile isSpace with
  | nil => rw [he] at hend; cases hend
  | cons e rest =>
    rw [he] at hend hafter
    obtain rfl := Option.some.inj hend
    refine ⟨written, after.takeWhile isSpace, rest, ?_, hwritten, fun c hc => ?_⟩
    · rw [hafter, ← hs]
      rfl
    · exact List.mem_takeWhile_imp hc

theorem trimRight_append_space {name space : List Char} (hn : ∀ c ∈ name, c.isAlpha = true)
    (hs : ∀ c ∈ space, isSpace c = true) : trimRight (name ++ space) = name := by
  have hblank : ∀ c ∈ space.reverse, isBlank c = true := fun c hc =>
    isBlank_of_isSpace (hs c (List.mem_reverse.1 hc))
  have hstop : StopsAt isBlank name.reverse := by
    intro c hc
    rw [List.head?_reverse] at hc
    exact isBlank_of_isAlpha (hn c (List.mem_of_getLast? hc))
  rw [trimRight, List.reverse_append, dropWhile_run hblank hstop, List.reverse_reverse]

theorem closesNext_readPieces {name s : List Char} (hne : name ≠ [])
    (hn : ∀ c ∈ name, c.isAlpha = true) (h : beginsCloseTag name s = true) (line : Nat) :
    ClosesNext name (readPieces line s) := by
  obtain ⟨written, space, rest, rfl, rfl, hspace⟩ := beginsCloseTag_eq_true h
  have hletters : ∀ c ∈ written, c.isAlpha = true := fun c hc =>
    isAlpha_of_toLower (hn _ (List.mem_map_of_mem hc))
  have hstart : startsWithLetter written = true := by
    cases written with
    | nil => exact absurd rfl hne
    | cons c cs => exact hletters c List.mem_cons_self
  have hnext := Token.next_bracket ('/' :: (written ++ (space ++ '>' :: rest)))
  rw [Token.readMarkup_closeSpaced hstart (fun c hc => isTagNameChar_of_isAlpha (hletters c hc))
    hspace, trimRight_append_space hletters hspace] at hnext
  exact .inr ⟨_, TreeBuilder.readPieces_next hnext line⟩

theorem splitWhere_beginsCloseTag {name s : List Char} (h : firstIsCloseTag name s = true) :
    splitWhere (beginsCloseTag name) s = splitWhere (startsWithCaseless (closing name)) s := by
  have hs := splitWhere_append (startsWithCaseless (closing name)) s
  have hbefore := test_splitWhere_fst (startsWithCaseless (closing name)) s
  rw [firstIsCloseTag, Bool.or_eq_true, List.isEmpty_iff] at h
  generalize splitWhere (startsWithCaseless (closing name)) s = cut at h hs hbefore ⊢
  rw [← hs]
  refine splitWhere_eq (fun t ht htail => ?_) (h.resolve_left ·)
  rw [beginsCloseTag, hbefore t ht htail, Bool.false_and]

theorem isVoid_of_isRawText {name : List Char} (h : isRawText name = true) :
    isVoid name = false := by
  have hall : ∀ n ∈ rawTextNames, isVoid n = false := by decide
  exact hall name (List.contains_iff_mem.1 h)

theorem isAlpha_of_isRawText {name : List Char} (h : isRawText name = true) :
    name ≠ [] ∧ ∀ c ∈ name, c.isAlpha = true := by
  have hall : ∀ n ∈ rawTextNames, n ≠ [] ∧ ∀ c ∈ n, c.isAlpha = true := by
    simp [rawTextNames]
  exact hall name (List.contains_iff_mem.1 h)

def HoldsRawText (e : Element) (o : Opening) : Prop :=
  if o.selfClosing then e.children = []
  else firstIsCloseTag e.tag.name o.rest = true →
    e.children = textNodes (splitWhere (beginsCloseTag e.tag.name) o.rest).1

theorem holdsRawText_of_readAt {p : OpenPiece} {o : Opening} {e : Element} (hp : p.ReadAt o)
    (he : p.Holds e) (hr : isRawText e.tag.name = true) : HoldsRawText e o := by
  obtain ⟨htag, hself, line, hbehind⟩ := hp
  obtain ⟨htag', hholds⟩ := he
  rw [htag'] at hr
  rw [HoldsRawText, htag']
  rw [← htag] at hbehind
  rw [OpenPiece.Encloses, hself] at hholds
  cases hc : o.selfClosing with
  | true => simpa [hc] using hholds
  | false =>
    have hv := isVoid_of_isRawText hr
    rw [hc, splitRawText_of_raw hv hr] at hbehind
    simp only [hc, hv, Bool.or_self, Bool.false_eq_true, if_false] at hholds ⊢
    intro hfirst
    rw [splitWhere_beginsCloseTag hfirst]
    refine hholds _ _ hbehind ?_
    rw [firstIsCloseTag, Bool.or_eq_true, List.isEmpty_iff] at hfirst
    -- what the raw text ends at: the end of the text, or a piece that closes this element
    rcases hfirst with hend | htag
    · exact .inl (by rw [hend, TreeBuilder.readPieces_nil])
    · obtain ⟨hne, hletters⟩ := isAlpha_of_isRawText hr
      exact closesNext_readPieces hne hletters htag line

/-- The elements of a document, each with the place of its open tag: one that holds raw text holds
the text from there to its close tag, or to the end, where nothing but that tag begins as it does. -/
theorem rawText_to_closeTag (source : List Char) :
    ∃ openings : List Opening, (∀ o ∈ openings, o.In source) ∧
      openings.Pairwise Opening.Precedes ∧
      List.Forall₂ (fun e o => e.tag = o.tag ∧ (isRawText e.tag.name = true → HoldsRawText e o))
        (allElements (parse source)) openings := by
  obtain ⟨os, hread, hin, hord⟩ := openings_pieces source
  refine ⟨os, hin, hord, ?_⟩
  have hholds := holds_treeOfPieces (pieces source)
  rw [parse]
  generalize openPieces (pieces source) = ps at hread hholds
  generalize allElements (treeOfPieces (pieces source)) = es at hholds ⊢
  induction hread generalizing es with
  | nil =>
    cases hholds
    exact .nil
  | cons hp _ ih =>
    cases hholds with
    | cons he hes =>
      exact .cons ⟨he.1.trans hp.1, holdsRawText_of_readAt hp he⟩
        (ih (fun o ho => hin o (List.mem_cons_of_mem _ ho)) hord.of_cons _ hes)

example : firstIsCloseTag "title".toList "a</b></TITLE >".toList = true := by decide

/-- A longer name begins as the close tag does: what follows it is read as markup. -/
theorem parse_raw_longer_name :
    parse "<script></scripts><b></script>".toList =
        [.element ⟨"script".toList, [], 1⟩ [.element ⟨['b'], [], 1⟩ []]] ∧
      splitWhere (beginsCloseTag "script".toList) "</scripts><b></script>".toList =
        ("</scripts><b>".toList, "</script>".toList) := by
  constructor
  · have h₁ : Token.next "<script></scripts><b></script>".toList =
        some (⟨[], .tagOpen "script".toList, "<script".toList⟩,
          "></scripts><b></script>".toList) := by cbv
    have ha : readAttributes .start "></scripts><b></script>".toList =
        ⟨[], false, ['>'], "</scripts><b></script>".toList⟩ := by cbv
    have hr : splitRawText "script".toList false "</scripts><b></script>".toList =
        ([], "</scripts><b></script>".toList) := rfl
    have h₂ : Token.next "</scripts><b></script>".toList =
        some (⟨[], .tagClose "scripts".toList, "</scripts>".toList⟩, "<b></script>".toList) := by
      cbv
    have h₃ : Token.next "<b></script>".toList =
        some (⟨[], .tagOpen ['b'], "<b".toList⟩, "></script>".toList) := by cbv
    have hb : readAttributes .start "></script>".toList =
        ⟨[], false, ['>'], "</script>".toList⟩ := by cbv
    have h₄ : Token.next "</script>".toList =
        some (⟨[], .tagClose "script".toList, "</script>".toList⟩, []) := by cbv
    rw [parse, pieces, TreeBuilder.readPieces_open h₁ ha hr, TreeBuilder.readPieces_next h₂,
      TreeBuilder.readPieces_open h₃ hb rfl, TreeBuilder.readPieces_next h₄,
      TreeBuilder.readPieces_nil]
    rfl
  · decide

end ComponentMarkup
