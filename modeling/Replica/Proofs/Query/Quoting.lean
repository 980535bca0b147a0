import Replica.Proofs.Query.Lexer

/-!
# Where a quoted literal ends

A scanner takes a quoted literal off the front of a text: from the quote that opens it, over pairs
of quotes, to the first quote without a partner. It takes exactly the literals that quoting writes,
each as the text that was quoted, so no text that is quoted can end its literal early or run on into
what follows. A quote behind the literal would pair with the one that closes it, so what follows
must not begin with one.
-/
namespace Replica.Sql

/-- The content of the quoted literal at the front of a text, and what stands behind the literal. -/
def scanQuoted : List Char → Option (List Char × List Char)
  | '\'' :: rest => scanText rest
  | _ => none

/-- What is scanned was written with its quotes doubled, and the quote behind it has no partner. -/
theorem eq_of_scanText {cs content behind : List Char} (h : scanText cs = some (content, behind)) :
    cs = Literal.doubleQuotes content ++ '\'' :: behind ∧ ∀ c ∈ behind.head?, c ≠ '\'' := by
  fun_induction scanText cs generalizing content with
  | case1 => contradiction
  | case2 rest ih =>
    obtain ⟨⟨inner, tail⟩, hinner, heq⟩ := Option.map_eq_some_iff.mp h
    obtain ⟨rfl, rfl⟩ := Prod.mk.inj heq
    obtain ⟨rfl, hbehind⟩ := ih hinner
    exact ⟨rfl, hbehind⟩
  | case3 rest hpair =>
    obtain ⟨rfl, rfl⟩ := Prod.mk.inj (Option.some.inj h)
    refine ⟨rfl, fun c hc heq => ?_⟩
    obtain ⟨tail, rfl⟩ := List.head?_eq_some_iff.mp hc
    exact hpair tail (heq ▸ rfl)
  | case4 c rest hpair hquote ih =>
    obtain ⟨⟨inner, tail⟩, hinner, heq⟩ := Option.map_eq_some_iff.mp h
    obtain ⟨rfl, rfl⟩ := Prod.mk.inj heq
    obtain ⟨rfl, hbehind⟩ := ih hinner
    refine ⟨?_, hbehind⟩
    rw [Literal.doubleQuotes]
    · rfl
    · exact fun heq => hquote heq

theorem scanText_eq_some_iff {cs content behind : List Char} :
    scanText cs = some (content, behind) ↔
      cs = Literal.doubleQuotes content ++ '\'' :: behind ∧ ∀ c ∈ behind.head?, c ≠ '\'' := by
  refine ⟨eq_of_scanText, ?_⟩
  rintro ⟨rfl, hbehind⟩
  have hscan := scanText_append (scanText_doubleQuotes content) hbehind
  rwa [List.append_assoc] at hscan

theorem scanQuoted_eq_some_iff {cs content behind : List Char} :
    scanQuoted cs = some (content, behind) ↔
      cs = '\'' :: Literal.doubleQuotes content ++ ['\''] ++ behind ∧
        ∀ c ∈ behind.head?, c ≠ '\'' := by
  rw [List.append_assoc, List.cons_append]
  constructor
  · intro h
    unfold scanQuoted at h
    split at h
    · exact (scanText_eq_some_iff.mp h).imp_left (congrArg ('\'' :: ·))
    · contradiction
  · rintro ⟨rfl, hbehind⟩
    exact scanText_eq_some_iff.mpr ⟨rfl, hbehind⟩

/-- **A quoted literal ends where it was meant to end.** A text without a NUL has a literal. A
scanner gives that text and leaves a rest exactly if it was given the literal and the rest behind
it, and the rest does not begin with a quote. A text with a NUL has no literal. -/
theorem scanQuoted_quoted (t : String) :
    ('\x00' ∉ t.toList ↔ ∃ l, Literal.quoted t = .ok l ∧ ∀ cs behind,
      (scanQuoted cs = some (t.toList, behind) ↔
        cs = l.render.toList ++ behind ∧ ∀ c ∈ behind.head?, c ≠ '\'')) ∧
    ('\x00' ∈ t.toList ↔ ∃ e, Literal.quoted t = .error e) := by
  by_cases hnul : '\x00' ∈ t.toList
  · have hrefused : Literal.quoted t =
        .error (.invalidCriterion "text values must not contain NUL characters") := dif_pos hnul
    refine ⟨iff_of_false (not_not_intro hnul) ?_, iff_of_true hnul ⟨_, hrefused⟩⟩
    rintro ⟨l, hl, -⟩
    cases hrefused.symm.trans hl
  · have hquoted : Literal.quoted t = .ok (.text t hnul) := dif_neg hnul
    refine ⟨iff_of_true hnul ⟨.text t hnul, hquoted, fun cs behind => ?_⟩, iff_of_false hnul ?_⟩
    · rw [Literal.render, String.toList_ofList]
      exact scanQuoted_eq_some_iff
    · rintro ⟨e, he⟩
      cases hquoted.symm.trans he

example : scanQuoted "'''; DROP TABLE docs; --' AND 'x'".toList =
    some ("'; DROP TABLE docs; --".toList, " AND 'x'".toList) := by decide

end Replica.Sql
