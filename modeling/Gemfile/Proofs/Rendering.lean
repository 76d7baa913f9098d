import Gemfile.Proofs.Joining
import Gemfile.Proofs.Printing
import Gemfile.Proofs.Rendering.Lexing

/-!
# What is between tokens does not count

Texts with the same tokens, each on a line of its own in either, are read as the same statements, or
refused for the same cause.  So gaps, comments and broken lines change nothing but the lines.

* `Statement.outline x`        statements without their lines, or the cause why there are none
* `ofTokens_alike`             tokens on other lines are the same statements there
* `outline_of_lexemes`         texts with the same tokens have one outline
* `parse_rendered`             so a text is read as its tokens with spaces between them are
-/

namespace Gemfile
open Token

namespace Statement

def outline : Except SyntaxFault (List Statement) → Except SyntaxCause (List Statement)
  | .ok ts => .ok (unlinedAll ts)
  | .error f => .error f.cause

lemma unlinedAll_relined (g : Nat → Nat) (ts : List Statement) :
    unlinedAll (relinedAll g ts) = unlinedAll ts := by
  induction ts using induct with
  | nil => rw [relinedAll]
  | cons t ts block rest =>
    obtain ⟨name, args, options, body, line⟩ := t
    rw [relinedAll, unlinedAll, unlinedAll, rest]
    cases body with
    | none => rw [relined, unlined, unlined]
    | some b => rw [relined, unlined, unlined, block b rfl]

theorem ofTokens_alike (g : Nat → Nat) {ts : List Token} (h : Ended ts) :
    Alike g (fun ss us => us = relinedAll g ss) (ofTokens ts)
      (ofTokens (ts.map (Token.relined g))) := by
  have hread := (statementsAlike g (readers ts)).sequence (readers ts) none ts h
    (by unfold readers; omega) (by unfold readers; omega)
  unfold ofTokens
  rw [show readers (ts.map (Token.relined g)) = readers ts by unfold readers; rw [List.length_map]]
  generalize sequenceFrom (readers ts) none ts = x at hread
  generalize sequenceFrom (readers ts) none (ts.map (Token.relined g)) = y at hread
  cases hread with
  | ok hread =>
    obtain ⟨⟨_, _⟩, _⟩ := hread
    exact .ok rfl
  | error f => exact .error f

lemma outline_of_alike {g : Nat → Nat} {x y : Except SyntaxFault (List Statement)}
    (h : Alike g (fun ss us => us = relinedAll g ss) x y) : outline y = outline x := by
  cases h with
  | ok hread =>
    rw [hread]
    exact congrArg Except.ok (unlinedAll_relined g _)
  | error f => rfl

end Statement

/-! ## the same tokens on one line -/

lemma map_relined_of_lexemes {ts us : List Token} (h : ts.map lexeme = us.map lexeme) :
    ts.map (Token.relined fun _ => 0) = us.map (Token.relined fun _ => 0) := by
  have hmap : ∀ ts : List Token, ts.map (Token.relined fun _ => 0) =
      (ts.map lexeme).map fun l => ⟨l.kind, l.text, 0⟩ := by
    intro ts
    rw [List.map_map]
    rfl
  rw [hmap, hmap, h]

theorem outline_of_lexemes {a b : List Char} {ts us : List Token} (ha : scan a = .ok ts)
    (hb : scan b = .ok us) (h : ts.map lexeme = us.map lexeme) :
    Statement.outline (Statement.parse a) = Statement.outline (Statement.parse b) := by
  have ended : ∀ {cs ts}, scan cs = .ok ts → Ended ts := by
    intro cs ts hscan
    obtain ⟨body, e, rfl, he, -⟩ := scan_endOfFile hscan
    exact ⟨e, List.mem_append_right body (List.mem_singleton_self e), he⟩
  have hts := Statement.outline_of_alike (Statement.ofTokens_alike (fun _ => 0) (ended ha))
  have hus := Statement.outline_of_alike (Statement.ofTokens_alike (fun _ => 0) (ended hb))
  unfold Statement.parse
  rw [ha, hb, ok_bind, ok_bind, ← hts, ← hus, map_relined_of_lexemes h]

/-- The tokens of a text with spaces between them are tokens of the same kinds and spellings, and are
read as the text is; so is any other text with these tokens. -/
theorem parse_rendered {a : List Char} {ts : List Token} (h : scan a = .ok ts) :
    (∃ us, scan (rendered ts) = .ok us ∧ us.map lexeme = ts.map lexeme) ∧
      Statement.outline (Statement.parse (rendered ts)) = Statement.outline (Statement.parse a) ∧
      ∀ b us, scan b = .ok us → us.map lexeme = ts.map lexeme →
        Statement.outline (Statement.parse b) = Statement.outline (Statement.parse a) := by
  obtain ⟨us, hscan, hlexemes⟩ := scan_rendered h
  refine ⟨⟨us, hscan, hlexemes⟩, outline_of_lexemes hscan h hlexemes, ?_⟩
  intro b vs hb hv
  exact outline_of_lexemes hb h hv

/-- an option on the next line, and a comment behind it -/
theorem parse_rendered_comment :
    ∃ ts, scan "gem 'a', \\\n  b: 1 # x".toList = .ok ts ∧
      rendered ts = "gem 'a' , b: 1".toList ∧
      Statement.outline (Statement.parse "gem 'a' , b: 1".toList) =
        Statement.outline (Statement.parse "gem 'a', \\\n  b: 1 # x".toList) := by
  have hl : lexemes "gem 'a', \\\n  b: 1 # x".toList =
      ([⟨.name, "gem".toList⟩, ⟨.gap, " ".toList⟩, ⟨.string, "'a'".toList⟩, ⟨.punct, ",".toList⟩,
        ⟨.gap, " ".toList⟩, ⟨.gap, "\\\n".toList⟩, ⟨.gap, "  ".toList⟩, ⟨.label, "b:".toList⟩,
        ⟨.gap, " ".toList⟩, ⟨.number, "1".toList⟩, ⟨.gap, " ".toList⟩, ⟨.comment, "# x".toList⟩],
        []) := by
    rw [lexemes_eq_within (n := 30) (by decide)]
    decide +kernel
  have hscan := scan_of_lexemes hl
  obtain ⟨-, hparse, -⟩ := parse_rendered hscan
  exact ⟨_, hscan, by decide +kernel, hparse⟩

end Gemfile
