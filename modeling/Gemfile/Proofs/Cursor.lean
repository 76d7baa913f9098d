import Gemfile.Proofs.Cursor.Statement

/-!
# Reading stays inside of the tokens

The run of the readers over scanned tokens looks at tokens only where there are some, and it ends as
reading from a list of the tokens left does: with statements, or with a fault of spelling.

* `Inside ts es`   the events `es` of a run over `ts` stay inside of the tokens and go on
* `parse_agrees`   the run over readable tokens is sound, and ends as their reading does
* `parse_inside`   so the run over scanned tokens stays inside, and a fault is on the line of a token
-/

namespace Gemfile.Cursor
open Token

structure Inside (ts : List Token) (es : List Event) : Prop where
  /-- a token that is looked at is there -/
  looks : ∀ i, .look i ∈ es → i < ts.length
  /-- behind the end of the file no token is looked at or passed -/
  ends : ∀ a b i t, es = a ++ .take i :: b → ts[i]? = some t → t.kind = .endOfFile →
    ∀ j, .look j ∉ b ∧ .take j ∉ b
  /-- a turn of a loop passes a token -/
  turns : ∀ l i j, .turn l i j ∈ es → i < j
  /-- before a reader at work is called again, a token has been passed -/
  calls : ∀ r i active, .call ⟨r, i⟩ active ∈ es → ∀ j, ⟨r, j⟩ ∈ active → j < i

/-- sound events on a path stay inside of tokens of which only the last one is the end of the file -/
lemma inside_of_sound {body : List Token} {e : Token} (hbody : ∀ t ∈ body, t.kind ≠ .endOfFile)
    {es : List Event} {p : Nat} (hpath : Path 0 es p)
    (hsound : ∀ x ∈ es, x.Sound (body ++ [e]).length) : Inside (body ++ [e]) es where
  looks i hi := hsound _ hi
  ends := by
    rintro a b i t rfl ht hk j
    have hlast : body.length ≤ i := by
      by_contra hlt
      rw [List.getElem?_append_left (by omega)] at ht
      exact hbody t (List.mem_of_getElem? ht) hk
    have behind (hj : .look j ∈ b ∨ .take j ∈ b) : body.length < j :=
      Nat.lt_of_le_of_lt hlast (hpath.lt_of_taken hj)
    have there {x : Event} (hx : x ∈ b) : x.Sound (body.length + 1) := by
      have h := hsound x (by simp [hx])
      rwa [List.length_append, List.length_singleton] at h
    constructor
    · intro hj
      exact absurd (there hj) (Nat.not_lt.mpr (behind (.inl hj)))
    · intro hj
      exact absurd (there hj) (Nat.not_lt.mpr (behind (.inr hj)))
  turns l i j hj := hsound _ hj
  calls r i active hc j hj := by
    rcases hsound _ hc _ hj with hlt | ⟨-, hlt⟩
    · exact hlt
    · exact absurd hlt (Nat.lt_irrefl _)

lemma parse_agrees {ts : List Token} (hr : Readable ts) {n : Nat} (hn : readers ts ≤ n) :
    Agrees ts 0 (parse n ts) (Statement.sequenceFrom (readers ts) none ts) := by
  have hpos : 0 < ts.length := by
    obtain ⟨e, he, -⟩ := hr.closed
    exact List.length_pos_of_mem (List.mem_of_getLast? he)
  have hcall : Admits [] ⟨.statements, 0⟩ := Admits.nil _
  have hst := hcall.lower .statement (by decide) (Nat.le_refl 0)
  unfold readers at hn
  apply agrees_call hcall
  apply (statementsAgree hr n).sequence (readers ts) none _ 0 hpos hst (by omega)
  unfold readers
  omega

/-- With as many calls and turns as the readers of a file have, the run over scanned tokens stays inside
of them, and it ends as the file is read: with statements, or with a fault of spelling on the line of a
token.  So it never stops for want of a token, of a character or of more turns, nor at a key that is no
text. -/
theorem parse_inside {cs : List Char} {ts : List Token} (h : scan cs = .ok ts) {n : Nat}
    (hn : readers ts ≤ n) :
    Path 0 (parse n ts).events (parse n ts).pos ∧ Inside ts (parse n ts).events ∧
      ((∃ ss, Statement.ofTokens ts = .ok ss ∧ (parse n ts).result = .ok ss) ∨
        ∃ f, Statement.ofTokens ts = .error f ∧ (parse n ts).result = .error (.fault f) ∧
          f ≠ exhausted ∧ (∃ t ∈ ts, f.line = t.line) ∧
          1 ≤ f.line ∧ f.line ≤ 1 + lineBreaks cs) := by
  have hpath : Path 0 (parse n ts).events (parse n ts).pos := (program n).path ts [] 0
  have hagrees := parse_agrees (readable_of_scan h) hn
  refine ⟨hpath, ?_, ?_⟩
  · have hsound := hagrees.sound
    obtain ⟨body, e, rfl, -, hbody⟩ := scan_endOfFile h
    exact inside_of_sound hbody hpath hsound
  · unfold Statement.ofTokens
    generalize parse n ts = run at hagrees
    generalize Statement.sequenceFrom (readers ts) none ts = o at hagrees
    cases hagrees with
    | ok _ _ _ => exact .inl ⟨_, rfl, rfl⟩
    | @error _ _ t c _ ht =>
      obtain ⟨h1, h2⟩ := scan_line h t ht
      refine .inr ⟨_, rfl, rfl, ?_, ⟨t, ht, rfl⟩, h1, h2⟩
      intro e
      have h0 : t.line = 0 := congrArg SyntaxFault.line e
      omega

/-- the list is not closed, so the end of the file is passed where a value would have to begin -/
theorem parse_inside_open :
    let ts : List Token := [⟨.name, "gem".toList, 1⟩, ⟨.punct, "[".toList, 1⟩,
      ⟨.number, "1".toList, 1⟩, ⟨.punct, ",".toList, 1⟩, ⟨.newline, "\n".toList, 1⟩, endOfFile 2]
    scan "gem [1,\n".toList = .ok ts ∧ readers ts ≤ 14 ∧ .take 5 ∈ (parse 14 ts).events ∧
      (parse 14 ts).result = .error (.fault ⟨2, .unsupportedExpression none⟩) ∧
      Inside ts (parse 14 ts).events := by
  intro ts
  have hl : lexemes "gem [1,\n".toList = ([⟨.name, "gem".toList⟩, ⟨.gap, " ".toList⟩,
      ⟨.punct, "[".toList⟩, ⟨.number, "1".toList⟩, ⟨.punct, ",".toList⟩,
      ⟨.newline, "\n".toList⟩], []) := by
    rw [lexemes_eq_within (n := 8) (by decide)]
    decide +kernel
  have hs : scan "gem [1,\n".toList = .ok ts := scan_of_lexemes hl
  have hn : readers ts ≤ 14 := by decide
  have hread : Statement.ofTokens ts = .error ⟨2, .unsupportedExpression none⟩ := rfl
  obtain ⟨-, hinside, hend⟩ := parse_inside hs hn
  refine ⟨hs, hn, by decide +kernel, ?_, hinside⟩
  rcases hend with ⟨ss, hss, -⟩ | ⟨f, hf, hrun, -⟩
  · rw [hread] at hss
    cases hss
  · rw [hread] at hf
    rw [hrun, ← Except.error.inj hf]

end Gemfile.Cursor
