import GrammarAudit.Proofs.Grammar.UnitContents
import GrammarAudit.Proofs.Grammar.UnitEnd

/-!
# Literals and line breaks

A literal that is not closed ends before the next line feed, unless a backslash takes that line feed
along. So a line feed stands in a literal exactly if a backslash in effect stands right before one
while the literal is still open.

- `EscapesLineFeed`: an open literal comes to a backslash and a line feed.
- `Content.exists_of_lineFeed`: a line feed among the contents of a literal.
- `exists_span`: the parts of what a literal spans.
- `lineFeed_mem_literal_iff`: the literals that hold a line feed.
- `lineFeed_in_open_literal`: a literal that goes on in the next line.
-/

namespace GrammarAudit.Grammar

/-- Behind the opening mark of a literal, a backslash takes a line feed along before the literal is
closed. -/
def EscapesLineFeed (mark : Char) (s : List Char) : Prop :=
  ∃ content, Content [mark, '\n'] content ∧ content ++ ['\\', '\n'] <+: s

/-! ## Line feeds among contents -/

/-- A line feed among the contents of a literal was taken along by a backslash. -/
theorem Content.exists_of_lineFeed {mark : Char} {x : List Char} (hx : Content [mark, '\n'] x)
    {before after : List Char} (h : x = before ++ '\n' :: after) :
    ∃ content, Content [mark, '\n'] content ∧ before = content ++ ['\\'] := by
  induction hx generalizing before with
  | nil => simp at h
  | @escape c s rest ih =>
    rcases before with - | ⟨a, - | ⟨b, before⟩⟩
    · exact absurd (List.cons.inj h).1 (by decide)
    · obtain ⟨rfl, -⟩ := List.cons.inj h
      exact ⟨[], .nil, rfl⟩
    · obtain ⟨rfl, htaken⟩ := List.cons.inj h
      obtain ⟨rfl, hrest⟩ := List.cons.inj htaken
      obtain ⟨content, hcontent, rfl⟩ := ih hrest
      exact ⟨'\\' :: c :: content, hcontent.escape c, rfl⟩
  | @plain c s hslash hends rest ih =>
    rcases before with - | ⟨a, before⟩
    · obtain ⟨rfl, -⟩ := List.cons.inj h
      exact absurd (by simp) hends
    · obtain ⟨rfl, hrest⟩ := List.cons.inj h
      obtain ⟨content, hcontent, rfl⟩ := ih hrest
      exact ⟨c :: content, hcontent.plain hslash hends, rfl⟩

/-! ## The span of a literal -/

/-- What is passed over of a text, up to where the rest of it begins. -/
theorem extract_of_drop {s part tail : List Char} {pos : Nat} (h : s.drop pos = part ++ tail) :
    s.extract pos (s.length - tail.length) = part := by
  have hlength : s.length - pos = part.length + tail.length := by
    rw [← List.length_drop, h, List.length_append]
  have hstop : s.length - tail.length - pos = part.length := by omega
  rw [List.extract, h, hstop, List.take_left]

theorem lineFeed_ne_of_isQuote {mark : Char} (h : isQuote mark = true) : mark ≠ '\n' := by
  rintro rfl
  cases h

/-- What stands before a line feed in the span of a literal: contents and a backslash. -/
theorem exists_content_of_lineFeed {mark : Char} (hquote : isQuote mark = true)
    {x last before after : List Char} (hx : Content [mark, '\n'] x)
    (hlast : last = [mark] ∨ last = [] ∨ last = ['\\'])
    (h : mark :: (x ++ last) = before ++ '\n' :: after) :
    ∃ content, Content [mark, '\n'] content ∧ before = mark :: (content ++ ['\\']) := by
  have hfeed : '\n' ∉ last := by
    have hmark := (lineFeed_ne_of_isQuote hquote).symm
    rcases hlast with rfl | rfl | rfl
    · simpa using hmark
    · exact List.not_mem_nil
    · decide
  rcases before with - | ⟨a, before⟩
  · exact absurd (List.cons.inj h).1 (lineFeed_ne_of_isQuote hquote)
  obtain ⟨rfl, hbehind⟩ := List.cons.inj h
  -- the line feed stands in the contents, since no ending of a literal holds one
  rcases List.append_eq_append_iff.mp hbehind with ⟨y, rfl, hend⟩ | ⟨y, hcontents, hend⟩
  · exact absurd (hend ▸ List.mem_append_right y List.mem_cons_self) hfeed
  rcases y with - | ⟨b, y⟩
  · rw [List.nil_append] at hend
    exact absurd (hend ▸ List.mem_cons_self) hfeed
  · obtain ⟨rfl, -⟩ := List.cons.inj hend
    obtain ⟨content, hcontent, rfl⟩ := hx.exists_of_lineFeed hcontents
    exact ⟨content, hcontent, rfl⟩

/-- What a literal spans: its mark, contents, and what it ends with. -/
theorem exists_span {s rest : List Char} {pos stop : Nat} {mark : Char}
    (h : s.drop pos = mark :: rest) (hstop : literalEnd? s pos = some stop) :
    ∃ x last, Content [mark, '\n'] x ∧ rest = x ++ last ++ afterLiteral mark rest ∧
      (last = [mark] ∨ last = [] ∨ last = ['\\']) ∧ s.extract pos stop = mark :: (x ++ last) := by
  obtain ⟨x, last, hx, hrest, hlast⟩ := afterLiteral_cases mark rest
  refine ⟨x, last, hx, hrest, hlast.imp_right And.left, ?_⟩
  obtain rfl := Option.some.inj (hstop.symm.trans (literalEnd?_of_drop h))
  refine extract_of_drop (h.trans ?_)
  rw [List.cons_append, ← hrest]

theorem escapesLineFeed_of_mem {mark : Char} (hquote : isQuote mark = true)
    {s x last tail : List Char} (hx : Content [mark, '\n'] x)
    (hlast : last = [mark] ∨ last = [] ∨ last = ['\\']) (hs : s = x ++ last ++ tail)
    (hmem : '\n' ∈ mark :: (x ++ last)) : EscapesLineFeed mark s := by
  obtain ⟨before, after, hsplit⟩ := List.append_of_mem hmem
  obtain ⟨content, hcontent, rfl⟩ := exists_content_of_lineFeed hquote hx hlast hsplit
  refine ⟨content, hcontent, after ++ tail, ?_⟩
  rw [hs, (List.cons.inj hsplit).2]
  simp

/-- The literal goes on behind a line feed that is taken along, so its span reaches beyond it. -/
theorem EscapesLineFeed.lineFeed_mem {mark : Char} {s x last : List Char}
    (h : EscapesLineFeed mark s) (hs : s = x ++ last ++ afterLiteral mark s) :
    '\n' ∈ x ++ last := by
  obtain ⟨content, hcontent, t, rfl⟩ := h
  have hafter : afterLiteral mark (content ++ ['\\', '\n'] ++ t) = afterLiteral mark t := by
    rw [List.append_assoc, afterLiteral_append_of_content hcontent]
    rfl
  obtain ⟨y, hy⟩ := afterLiteral_suffix mark t
  have hspanned : content ++ ['\\', '\n'] ++ y = x ++ last := by
    refine (List.append_left_inj (afterLiteral mark t)).mp ?_
    rw [List.append_assoc, hy, hs, hafter]
  rw [← hspanned]
  simp

/-- **The literals that hold a line feed.** From any quote of a text on, a literal ends behind the
quote and within the text. What it spans holds a line feed exactly if a backslash takes one along
before the literal is closed, and every line feed in it stands behind a backslash. -/
theorem lineFeed_mem_literal_iff {s : List Char} {pos : Nat} {mark : Char}
    (hmark : s[pos]? = some mark) (hquote : isQuote mark = true) :
    ∃ stop, literalEnd? s pos = some stop ∧ Advances s pos stop ∧
      ('\n' ∈ s.extract pos stop ↔ EscapesLineFeed mark (s.drop (pos + 1))) ∧
      ∀ before, before ++ ['\n'] <+: s.extract pos stop → before.getLast? = some '\\' := by
  obtain ⟨stop, hstop, hadvances⟩ := advances_literalEnd? hmark
  obtain ⟨x, last, hx, hrest, hlast, hspan⟩ := exists_span (drop_of_getElem? hmark) hstop
  refine ⟨stop, hstop, hadvances, ?_, ?_⟩
  · rw [hspan]
    constructor
    · exact escapesLineFeed_of_mem hquote hx hlast hrest
    · intro h
      exact List.mem_cons_of_mem mark (h.lineFeed_mem hrest)
  · intro before hbefore
    rw [hspan] at hbefore
    obtain ⟨after, hafter⟩ := hbefore
    rw [List.append_assoc] at hafter
    obtain ⟨content, -, rfl⟩ := exists_content_of_lineFeed hquote hx hlast hafter.symm
    rw [← List.cons_append, List.getLast?_concat]

/-- Two backslashes take no line feed along: the second one is what the first one takes. -/
theorem lineFeed_mem_literal_of_two_backslashes :
    literalEnd? "a : 'b\\\\\n' ;".toList 4 = some 8 ∧
      '\n' ∉ "a : 'b\\\\\n' ;".toList.extract 4 8 ∧
      ¬EscapesLineFeed '\'' ("a : 'b\\\\\n' ;".toList.drop 5) := by
  obtain ⟨stop, hstop, -, hiff, -⟩ :=
    @lineFeed_mem_literal_iff "a : 'b\\\\\n' ;".toList 4 '\'' (by decide) (by decide)
  have hend : literalEnd? "a : 'b\\\\\n' ;".toList 4 = some 8 := by decide +kernel
  obtain rfl : stop = 8 := Option.some.inj (hstop.symm.trans hend)
  have hfeed : '\n' ∉ "a : 'b\\\\\n' ;".toList.extract 4 8 := by decide +kernel
  exact ⟨hend, hfeed, fun h => hfeed (hiff.mpr h)⟩

/-- A literal that is not closed goes on in the next line when a backslash ends the first one. -/
theorem lineFeed_in_open_literal :
    let s := "'a\\\nb".toList
    (s[0]?.any isQuote) = true ∧ s[3]? = some '\n' ∧ literalEnd? s 0 = some 5 ∧
      '\n' ∈ s.extract 0 5 := by
  decide +kernel

end GrammarAudit.Grammar
