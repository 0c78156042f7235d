import ComponentMarkup.Markup.Document
import ComponentMarkup.Proofs.Markup.Shape

/-!
Reading goes on where it stands: what a tree that has been begun becomes with the next tag, comment,
doctype or text, whatever follows. One lemma for each, `TreeBuilder.readFrom_open` and so on.
-/

set_option autoImplicit false

namespace ComponentMarkup

@[simp] theorem lineFeeds_nil : lineFeeds [] = 0 := rfl

namespace TreeBuilder

def siblings (b : TreeBuilder) : List Node :=
  match b.opened with
  | [] => b.roots
  | e :: _ => e.children

theorem modifySiblings_modifySiblings (f g : List Node → List Node) (b : TreeBuilder) :
    (b.modifySiblings f).modifySiblings g = b.modifySiblings (fun ns => g (f ns)) := by
  obtain ⟨opened, roots⟩ := b
  cases opened with
  | nil => rfl
  | cons e es => rfl

theorem modifySiblings_congr {f g : List Node → List Node} {b : TreeBuilder}
    (h : f b.siblings = g b.siblings) : b.modifySiblings f = b.modifySiblings g := by
  obtain ⟨opened, roots⟩ := b
  cases opened with
  | nil => exact congrArg (TreeBuilder.mk []) h
  | cons e es => exact congrArg (fun ns => TreeBuilder.mk ({ e with children := ns } :: es) roots) h

@[simp] theorem siblings_modifySiblings (f : List Node → List Node) (b : TreeBuilder) :
    (b.modifySiblings f).siblings = f b.siblings := by
  obtain ⟨opened, roots⟩ := b
  cases opened with
  | nil => rfl
  | cons e es => rfl

@[simp] theorem modifySiblings_id (b : TreeBuilder) : b.modifySiblings (fun ns => ns) = b := by
  obtain ⟨opened, roots⟩ := b
  cases opened with
  | nil => rfl
  | cons e es => rfl

def addText (chars : List Char) (b : TreeBuilder) : TreeBuilder :=
  if chars = [] then b else b.modifySiblings (joinText chars)

@[simp] theorem addText_nil (b : TreeBuilder) : b.addText [] = b := rfl

theorem addText_addText (s t : List Char) (b : TreeBuilder) :
    (b.addText s).addText t = b.addText (s ++ t) := by
  unfold addText
  by_cases hs : s = []
  · simp [hs]
  · by_cases ht : t = []
    · simp [hs, ht]
    · rw [if_neg hs, if_neg ht, if_neg (by simp [hs]), modifySiblings_modifySiblings]
      refine modifySiblings_congr ?_
      cases hb : b.siblings with
      | nil => rfl
      | cons n ns =>
        cases n with
        | text before => simp [joinText]
        | element tag children => rfl
        | comment body => rfl
        | doctype body => rfl

theorem addText_eq_push {chars : List Char} {b : TreeBuilder} (hc : chars ≠ [])
    (hb : startsWithText b.siblings = false) : b.addText chars = b.push (.text chars) := by
  rw [addText, if_neg hc, push]
  refine modifySiblings_congr ?_
  cases hs : b.siblings with
  | nil => rfl
  | cons n ns =>
    cases n with
    | text before =>
      rw [hs] at hb
      cases hb
    | element tag children => rfl
    | comment body => rfl
    | doctype body => rfl

def pushAll (ns : List Node) (b : TreeBuilder) : TreeBuilder :=
  b.modifySiblings (ns.reverse ++ ·)

@[simp] theorem pushAll_nil (b : TreeBuilder) : b.pushAll [] = b := by simp [pushAll]

theorem pushAll_cons (n : Node) (ns : List Node) (b : TreeBuilder) :
    b.pushAll (n :: ns) = (b.push n).pushAll ns := by
  rw [push, pushAll, pushAll, modifySiblings_modifySiblings]
  simp

theorem siblings_push (n : Node) (b : TreeBuilder) : (b.push n).siblings = n :: b.siblings := by
  simp [push]

def enter (tag : Tag) (b : TreeBuilder) : TreeBuilder := { b with opened := ⟨tag, []⟩ :: b.opened }

theorem close_enter_pushAll (tag : Tag) (children : List Node) (b : TreeBuilder) :
    ((b.enter tag).pushAll children).close tag.name = b.push (.element tag children) := by
  simp [enter, pushAll, modifySiblings, close, List.findIdx?_cons, closeMany, closeInnermost]

theorem finish_pushAll_start (ns : List Node) : (start.pushAll ns).finish = ns := by
  simp [start, pushAll, modifySiblings, finish, closeMany]

def readFrom (b : TreeBuilder) (line : Nat) (s : List Char) : TreeBuilder :=
  (readPieces line s).foldl add b

theorem finish_readFrom (s : List Char) : (start.readFrom 1 s).finish = parse s := rfl

theorem readPieces_nil (line : Nat) : readPieces line [] = [] := by
  rw [readPieces]
  split
  · rfl
  · rename_i h
    cases h

theorem readFrom_nil (b : TreeBuilder) (line : Nat) : b.readFrom line [] = b := by
  rw [readFrom, readPieces_nil]
  rfl

theorem readPieces_next {s rest : List Char} {l : Lexeme Token} (h : Token.next s = some (l, rest))
    (line : Nat) :
    readPieces line s =
      (match l.token with
      | .tagOpen name =>
        let inside := readAttributes .start rest
        let raw := splitRawText name inside.selfClosing inside.rest
        .openTag ⟨name, inside.attrs, line⟩ inside.selfClosing :: (textPieces raw.1 ++
          readPieces (line + lineFeeds l.chars + lineFeeds inside.chars + lineFeeds raw.1) raw.2)
      | .tagClose name => .closeTag name :: readPieces (line + lineFeeds l.chars) rest
      | .comment body => .comment body :: readPieces (line + lineFeeds l.chars) rest
      | .doctype body => .doctype body :: readPieces (line + lineFeeds l.chars) rest
      | .text | .error => .text l.chars :: readPieces (line + lineFeeds l.chars) rest) := by
  rw [readPieces]
  split
  · rename_i hn
    rw [hn] at h
    cases h
  · rename_i l' rest' hn
    obtain ⟨rfl, rfl⟩ := Prod.mk.inj (Option.some.inj (h.symm.trans hn))
    rfl

theorem readPieces_open {s after raw rest name chars : List Char} {inside : TagInside}
    (h : Token.next s = some (⟨[], .tagOpen name, chars⟩, after))
    (ha : readAttributes .start after = inside)
    (hr : splitRawText name inside.selfClosing inside.rest = (raw, rest)) (line : Nat) :
    readPieces line s =
      .openTag ⟨name, inside.attrs, line⟩ inside.selfClosing :: (textPieces raw ++
        readPieces (line + lineFeeds chars + lineFeeds inside.chars + lineFeeds raw) rest) := by
  rw [readPieces_next h]
  simp only [ha, hr]

variable {s rest : List Char} {l : Lexeme Token}

theorem readFrom_text (h : Token.next s = some (l, rest)) (ht : l.token = .text ∨ l.token = .error)
    (b : TreeBuilder) (line : Nat) :
    b.readFrom line s = (b.addText l.chars).readFrom (line + lineFeeds l.chars) rest := by
  have hadd : b.addText l.chars = b.modifySiblings (joinText l.chars) := by
    rw [addText, if_neg (Token.next_chars_ne_nil h)]
  rw [readFrom, readPieces_next h, hadd]
  rcases ht with ht | ht
  · rw [ht]
    rfl
  · rw [ht]
    rfl

theorem readFrom_comment {body : List Char} (h : ¬"-->".toList <:+: body) (rest : List Char)
    (b : TreeBuilder) (line : Nat) :
    b.readFrom line ("<!--".toList ++ (body ++ ("-->".toList ++ rest))) =
      (b.push (.comment body)).readFrom
        (line + lineFeeds ("<!--".toList ++ (body ++ "-->".toList))) rest := by
  have hnext := Token.next_bracket ("!--".toList ++ (body ++ ("-->".toList ++ rest)))
  rw [Token.readMarkup_comment h] at hnext
  exact congrArg (List.foldl add b) (readPieces_next hnext line)

theorem readFrom_doctype {body : List Char} (h : startsWithCaseless "doctype".toList body = true)
    (hb : '>' ∉ body) (rest : List Char) (b : TreeBuilder) (line : Nat) :
    b.readFrom line ("<!".toList ++ (body ++ (">".toList ++ rest))) =
      (b.push (.doctype body)).readFrom (line + lineFeeds ("<!".toList ++ (body ++ ">".toList)))
        rest := by
  have hnext := Token.next_bracket ('!' :: (body ++ '>' :: rest))
  rw [Token.readMarkup_doctype h hb] at hnext
  exact congrArg (List.foldl add b) (readPieces_next hnext line)

/-- A close tag as it is written. A name that ends in a blank loses it. -/
theorem readFrom_renderClose {tag : Tag} (ht : IsElementName tag.name) (rest : List Char)
    (b : TreeBuilder) (line : Nat) :
    b.readFrom line (tag.renderClose ++ rest) =
      (b.close (lowerAscii (trimRight tag.name))).readFrom (line + lineFeeds tag.renderClose)
        rest := by
  have hnext := Token.next_bracket ('/' :: (tag.name ++ '>' :: rest))
  rw [Token.readMarkup_close ht.startsWithLetter ht.chars] at hnext
  have hwrite : tag.renderClose ++ rest = '<' :: '/' :: (tag.name ++ '>' :: rest) := by
    simp [Tag.renderClose]
  rw [readFrom, hwrite, readPieces_next hnext]
  rfl

theorem readFrom_close {tag : Tag} (ht : IsElementName tag.name)
    (hb : trimRight tag.name = tag.name) (children : List Node) (rest : List Char)
    (b : TreeBuilder) (line : Nat) :
    ((b.enter tag).pushAll children).readFrom line (tag.renderClose ++ rest) =
      (b.push (.element tag children)).readFrom (line + lineFeeds tag.renderClose) rest := by
  rw [readFrom_renderClose ht, hb, ht.lowerAscii_eq, close_enter_pushAll]

end TreeBuilder

def Tag.written (line : Nat) (t : Tag) : Tag := ⟨t.name, t.attrs.map Attribute.written, line⟩

theorem TreeBuilder.readFrom_open {tag : Tag} (ht : tag.Shaped) (rest : List Char) (b : TreeBuilder)
    (line : Nat) :
    b.readFrom line (tag.renderOpen ++ rest) =
      ((b.add (.openTag (tag.written line) false)).addText
          (splitRawText tag.name false rest).1).readFrom
        (line + lineFeeds tag.renderOpen + lineFeeds (splitRawText tag.name false rest).1)
        (splitRawText tag.name false rest).2 := by
  have hstop : StopsAt isTagNameChar (tag.attrs.flatMap Attribute.render ++ '>' :: rest) := by
    cases tag.attrs with
    | nil => exact stopsAt_cons.2 (by decide)
    | cons a attrs =>
      rw [List.flatMap_cons, Attribute.render]
      cases a.value with
      | none => exact stopsAt_cons.2 (by decide)
      | some value => exact stopsAt_cons.2 (by decide)
  have hnext := Token.next_bracket (tag.name ++ (tag.attrs.flatMap Attribute.render ++ '>' :: rest))
  rw [Token.readMarkup_open ht.name.startsWithLetter ht.name.chars hstop, ht.name.lowerAscii_eq]
    at hnext
  have hwrite : tag.renderOpen ++ rest =
      '<' :: (tag.name ++ (tag.attrs.flatMap Attribute.render ++ '>' :: rest)) := by
    simp [Tag.renderOpen]
  have hfeeds : lineFeeds ('<' :: tag.name) +
      lineFeeds (tag.attrs.flatMap Attribute.render ++ ['>']) = lineFeeds tag.renderOpen := by
    rw [← lineFeeds_append]
    rfl
  rw [readFrom, hwrite, readPieces_next hnext]
  simp only [readAttributes_render ht.attrs ht.distinct, List.foldl_cons, List.foldl_append,
    Nat.add_assoc, ← hfeeds]
  have htext : ∀ b : TreeBuilder, (textPieces (splitRawText tag.name false rest).1).foldl add b =
      b.addText (splitRawText tag.name false rest).1 := by
    intro b
    unfold textPieces addText
    cases (splitRawText tag.name false rest).1 with
    | nil => rfl
    | cons c cs => rfl
  rw [htext]
  rfl

theorem TreeBuilder.readFrom_plain {atEnd : Bool} {chars rest : List Char}
    (h : isPlain atEnd chars = true) (hr : AtBracket rest) (he : atEnd = true → rest = [])
    (b : TreeBuilder) (line : Nat) :
    b.readFrom line (chars ++ rest) =
      (b.addText chars).readFrom (line + lineFeeds chars) rest := by
  generalize hn : chars.length = n
  -- token by token
  induction n using Nat.strong_induction_on generalizing chars b line with
  | _ n ih =>
    cases chars with
    | nil => rfl
    | cons c cs =>
      obtain ⟨u, v, l, hu, hcs, hnext, hl, ht⟩ : ∃ u v l, u ≠ [] ∧ c :: cs = u ++ v ∧
          Token.next (c :: cs ++ rest) = some (l, v ++ rest) ∧ l.chars = u ∧
          (l.token = .text ∨ l.token = .error) := by
        by_cases hc : c = '<'
        · subst hc
          have hopens : opensMarkup atEnd cs = false := by
            simp only [isPlain, Bool.and_eq_true] at h
            simpa using h.1
          obtain ⟨u, v, token, rfl, hread, ht⟩ := Token.readMarkup_plain hopens hr he
          exact ⟨'<' :: u, v, _, by simp, rfl, (Token.next_bracket _).trans (congrArg some hread),
            rfl, ht⟩
        · refine ⟨c :: cs.takeWhile (· != '<'), cs.dropWhile (· != '<'),
            ⟨[], .text, c :: cs.takeWhile (· != '<')⟩, by simp, by simp, ?_, rfl, .inl rfl⟩
          rw [List.cons_append, Token.next, if_neg hc, takeWhile_append_stopsAt _ hr,
            dropWhile_append_stopsAt _ hr]
      have hv : isPlain atEnd v = true := isPlain_of_suffix h ⟨u, hcs.symm⟩
      have hlen : v.length < n := by
        have hsum := congrArg List.length hcs
        have hpos := List.length_pos_iff.2 hu
        rw [List.length_append] at hsum
        omega
      rw [readFrom_text hnext ht, hl, ih v.length hlen hv _ _ rfl, addText_addText, ← hcs, hcs,
        lineFeeds_append, Nat.add_assoc]

end ComponentMarkup
