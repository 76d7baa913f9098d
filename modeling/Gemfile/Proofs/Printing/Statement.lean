import Gemfile.Proofs.Grammar.Statement
import Gemfile.Proofs.Printing.Value

/-!
# Printed statements are read back

* `Cuts cs ls`      `cs` is cut into `ls`, whatever follows it
* `prints_call`     printed arguments derive the call
* `Statement.Printable.readBack`   a printed statement derives itself, but for the lines
* `parse_printAll`  so parsing undoes printing
-/

namespace Gemfile
open Token Grammar

def Cuts (cs : List Char) (ls : List Lexeme) : Prop :=
  ∀ r, lexemes (cs ++ r) = (ls ++ (lexemes r).1, (lexemes r).2)

lemma cuts_nil : Cuts [] [] := fun _ => rfl

lemma Cuts.lexes {cs ds : List Char} {ls ms : List Lexeme} (h : Cuts cs ls) (h' : Lexes ds ms) :
    Lexes (cs ++ ds) (ls ++ ms) := by
  intro r hr
  rw [List.append_assoc, h, h' r hr, List.append_assoc]

lemma Lexes.line {cs ds : List Char} {ls ms : List Lexeme} (h : Lexes cs ls) (h' : Cuts ds ms) :
    Cuts (cs ++ '\n' :: ds) (ls ++ ⟨.newline, ['\n']⟩ :: ms) := by
  intro r
  have hn : lexeme? ('\n' :: (ds ++ r)) = some (⟨.newline, ['\n']⟩, ds ++ r) := lexeme?_newline _
  rw [List.append_assoc, List.cons_append, h _ (ends_cons (by decide) _), lexemes_of_some hn, h',
    List.append_assoc, List.cons_append]

lemma Lexes.newline {cs : List Char} {ls : List Lexeme} (h : Lexes cs ls) :
    Lexes ('\n' :: cs) (⟨.newline, ['\n']⟩ :: ls) :=
  Lexes.cons (l := ⟨.newline, ['\n']⟩) h fun _ _ => lexeme?_newline _

lemma Lexes.name {w cs : List Char} {ls : List Lexeme} (h : Lexes cs ls) (hw : Identifier w)
    (he : ∀ r, Ends r → Ends (cs ++ r)) : Lexes (w ++ cs) (⟨.name, w⟩ :: ls) :=
  (Lexes.one (l := ⟨.name, w⟩) fun _ hr => lexeme?_name hw hr).append h he

lemma prints_call {args : List Value} {options : Options} (ha : ∀ v ∈ args, v.Printable)
    (ho : (Value.hash options).Printable) :
    Prints (IsCall .bracketed) (printCall args options) ⟨args, options⟩ := by
  have hv : ∀ v ∈ args ++ [.hash options],
      Prints (fun ts v => IsArgument ts (.positional v)) v.print v := by
    intro v hv
    refine Prints.imp (prints_value ?_) fun _ => .value
    rcases List.mem_append.mp hv with hv | hv
    · exact ha v hv
    · exact List.mem_singleton.mp hv ▸ ho
  obtain ⟨ls, -, hl, hp⟩ := prints_commas (by simp) hv
  have hb := hl.bracketed (o := '(') (c := ')') (by decide) (by decide)
  rw [← Value.prints_eq] at hb
  refine ⟨_, ⟨'(', _, rfl, by decide⟩, hb, fun line => ?_⟩
  have hs := Separated.map (hp (line + lineBreaks ['(']))
  rw [List.map_append] at hs
  have hc : CallOf (args.map .positional ++ [.positional (.hash options)]) ⟨args, options⟩ :=
    .trailingHash
  have h : ∀ n, IsCall .bracketed (⟨.punct, ['('], line⟩ :: mark (line + lineBreaks ['(']) ls ++
      [⟨.punct, [')'], n⟩]) ⟨args, options⟩ := by
    intro n
    have h1 := IsCall.bracketed (t := ⟨.punct, ['('], line⟩) (u := ⟨.punct, [')'], n⟩) rfl
      newlines_nil hs newlines_nil rfl hc
    rw [List.nil_append, List.append_nil] at h1
    exact h1
  rw [mark_append]
  exact h _

/-- the lexemes of a block around those of its statements -/
def blockLexemes (ls : List Lexeme) : List Lexeme :=
  ⟨.gap, [' ']⟩ :: ⟨.name, ['d', 'o']⟩ :: ⟨.newline, ['\n']⟩ ::
    (ls ++ [⟨.name, ['e', 'n', 'd']⟩])

/-- a block behind the arguments, without the line break that ends the statement -/
lemma lexes_block {cs : List Char} {ls : List Lexeme} (h : Cuts cs ls) :
    Lexes (' ' :: 'd' :: 'o' :: '\n' :: (cs ++ ['e', 'n', 'd'])) (blockLexemes ls) := by
  have hw : Identifier ['e', 'n', 'd'] := identifier_of_all rfl rfl
  have hend : Lexes ['e', 'n', 'd'] [⟨.name, ['e', 'n', 'd']⟩] :=
    lexes_nil.name hw fun _ hr => hr
  have hdo : Lexes (['d', 'o'] ++ '\n' :: (cs ++ ['e', 'n', 'd'])) _ :=
    (h.lexes hend).newline.name (identifier_of_all rfl rfl) fun r _ => ends_cons (by decide) _
  exact hdo.space ⟨'d', _, rfl, by decide⟩

lemma mark_block (line : Nat) (w : List Char) (ls ms : List Lexeme) :
    ∃ n, mark line (⟨.name, w⟩ :: (ls ++ blockLexemes ms)) =
      ⟨.name, w, line⟩ :: mark (line + lineBreaks w) ls ++
        (⟨.name, ['d', 'o'], n⟩ :: (⟨.newline, ['\n'], n⟩ :: mark (n + 1) ms) ++
          [⟨.name, ['e', 'n', 'd'], n + 1 + lineBreaks (spellings ms)⟩]) := by
  refine ⟨line + lineBreaks w + lineBreaks (spellings ls), ?_⟩
  have h : ∀ n, mark n (blockLexemes ms) =
      ⟨.name, ['d', 'o'], n⟩ :: (⟨.newline, ['\n'], n⟩ :: mark (n + 1) ms) ++
          [⟨.name, ['e', 'n', 'd'], n + 1 + lineBreaks (spellings ms)⟩] := by
    intro n
    show ⟨.name, ['d', 'o'], n⟩ :: ⟨.newline, ['\n'], n⟩ ::
      mark (n + 1) (ms ++ [⟨.name, ['e', 'n', 'd']⟩]) = _
    rw [mark_append]
    rfl
  show ⟨.name, w, line⟩ :: mark (line + lineBreaks w) (ls ++ blockLexemes ms) = _
  rw [mark_append, h]
  rfl

namespace Statement

/-- on any line, the tokens of the printed statement derive it -/
def ReadBack (t : Statement) : Prop :=
  ∃ cs ls, t.print = cs ++ ['\n'] ∧ Lexes cs ls ∧
    ∀ line, ∃ u, IsStatement (mark line ls) u ∧ u.unlined = t.unlined

def ReadBackAll (ts : List Statement) : Prop :=
  ∃ ls, Cuts (printAll ts) ls ∧
    ∀ line, ∃ us, IsSequence (mark line ls) us ∧ unlinedAll us = unlinedAll ts

lemma readBackAll_of_forall {ts : List Statement} (h : ∀ t ∈ ts, t.ReadBack) : ReadBackAll ts := by
  induction ts with
  | nil => exact ⟨[], cuts_nil, fun _ => ⟨[], .empty newlines_nil, rfl⟩⟩
  | cons t ts ih =>
    obtain ⟨cs, ls, hcs, hl, ht⟩ := h t List.mem_cons_self
    obtain ⟨ms, hc, hts⟩ := ih fun t ht => h t (List.mem_cons_of_mem _ ht)
    refine ⟨ls ++ ⟨.newline, ['\n']⟩ :: ms, ?_, fun line => ?_⟩
    · rw [printAll, hcs, List.append_assoc, List.singleton_append]
      exact hl.line hc
    · obtain ⟨u, hu, eu⟩ := ht line
      obtain ⟨us, hus, eus⟩ := hts (line + lineBreaks (spellings ls) + lineBreaks ['\n'])
      have hs : IsSequence (⟨.newline, ['\n'], line + lineBreaks (spellings ls)⟩ :: _) us :=
        IsSequence.newline rfl hus
      refine ⟨u :: us, ?_, by rw [unlinedAll, unlinedAll, eu, eus]⟩
      rw [mark_append]
      refine IsSequence.cons newlines_nil hu hs fun x r e hx => ?_
      rw [← (List.cons.inj e).1] at hx
      cases hx.1

/-- printed statements are read back; by induction on the blocks -/
theorem Printable.readBack {t : Statement} (h : t.Printable) : t.ReadBack := by
  induction h with
  | @mk name args options body line hi hr ha ho _ ih =>
    obtain ⟨ls, -, hl, hc⟩ := prints_call ha ho
    have hname : ∀ line, IsName ⟨.name, name.toList, line⟩ := by
      intro line
      refine ⟨rfl, ?_⟩
      rw [Token.spelling, String.ofList_toList]
      exact hr
    have hp : ∀ r, Ends (printCall args options ++ r) := fun r => ends_cons (by decide) _
    cases body with
    | none =>
      refine ⟨name.toList ++ printCall args options, ⟨.name, name.toList⟩ :: ls, ?_, ?_, ?_⟩
      · rw [print, List.append_assoc]
      · exact hl.name hi fun r _ => hp r
      · intro l
        refine ⟨_, .plain (hname l) (hc _), ?_⟩
        rw [Token.spelling, String.ofList_toList, unlined, unlined]
    | some b =>
      obtain ⟨ms, hm, hb⟩ := readBackAll_of_forall (ih b rfl)
      have hl := hl.append (lexes_block hm) fun r _ => ends_cons (by decide) _
      refine ⟨_, _, ?_, hl.name hi fun r _ => ?_, fun l => ?_⟩
      · rw [print]
        simp only [List.append_assoc, List.cons_append, List.nil_append]
      · rw [List.append_assoc]
        exact hp _
      · obtain ⟨n, hmark⟩ := mark_block l name.toList ls ms
        obtain ⟨us, hus, eus⟩ := hb (n + 1)
        rw [hmark]
        refine ⟨_, .block (hname l) (hc _) rfl (hus.newline rfl) rfl, ?_⟩
        rw [Token.spelling, String.ofList_toList, unlined, unlined]
        dsimp only
        rw [eus]

end Statement

/-- **Parsing undoes printing**: the text of statements is read, and what is read are these
statements, with nothing changed but the lines. -/
theorem parse_printAll {ts : List Statement} (h : ∀ t ∈ ts, t.Printable) :
    ∃ us, Statement.parse (Statement.printAll ts) = .ok us ∧
      Statement.unlinedAll us = Statement.unlinedAll ts := by
  obtain ⟨ls, hc, hs⟩ := Statement.readBackAll_of_forall fun t ht => (h t ht).readBack
  have hl : lexemes (Statement.printAll ts) = (ls, []) := by
    have h1 := hc []
    rw [List.append_nil, lexemes_nil, List.append_nil] at h1
    exact h1
  obtain ⟨us, hus, e⟩ := hs 1
  have hp : IsProgram (mark 1 ls ++ [endOfFile (1 + lineBreaks (spellings ls))]) us := .mk hus rfl
  refine ⟨us, ?_, e⟩
  unfold Statement.parse
  rw [scan_of_lexemes hl]
  exact ofTokens_complete hp

/-- a quote in a text, a hash that is no option, and a block with a statement without a block -/
theorem parse_printAll_block :
    ∃ us, Statement.parse
        "a?('\\'', \x7b\x7d, \x7b'k' => [-7, nil]\x7d) do\nb(\x7b\x7d)\nend\n".toList = .ok us ∧
      Statement.unlinedAll us =
        [⟨"a?", [.str "'", .hash []], [("k", .list [.int (-7), .nil])],
          some [⟨"b", [], [], none, 0⟩], 0⟩] := by
  have h0 : (Value.hash []).Printable := .hash (by simp) (by simp)
  have hb : Statement.Printable ⟨"b", [], [], none, 0⟩ :=
    .mk (identifier_of_all rfl rfl) (by decide) (by simp) h0 (by simp)
  have hk : (Value.list [.int (-7), .nil]).Printable := by
    refine .list ?_
    simp [Value.Printable.int, Value.Printable.nil]
  have ha : Statement.Printable ⟨"a?", [.str "'", .hash []], [("k", .list [.int (-7), .nil])],
      some [⟨"b", [], [], none, 0⟩], 0⟩ := by
    refine .mk ⟨'a', [], ['?'], rfl, rfl, by simp, .inr (.inl rfl)⟩ (by decide) ?_ ?_ ?_
    · simp [Value.Printable.str, h0]
    · exact .hash (by simp) (by simp [hk])
    · simp [hb]
  exact parse_printAll (List.forall_mem_singleton.mpr ha)

end Gemfile
