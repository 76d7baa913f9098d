import Gemfile.SyntaxFault
import Gemfile.Token.Lexeme

/-!
# From text to tokens

* `lexemes cs`     cuts lexemes off `cs` as long as there is one, and returns the rest
* `mark n ls`      the tokens among `ls`, each with its line, if the first lexeme is on line `n`
* `scan cs`        the tokens of a whole text, closed by the end of the file; a text that is not
                   lexemes to its end is refused at the first character that starts none
-/

namespace Gemfile.Token

def lexemes (cs : List Char) : List Lexeme × List Char :=
  match _h : lexeme? cs with
  | none => ([], cs)
  | some (l, r) =>
    let t := lexemes r
    (l :: t.1, t.2)
termination_by cs.length
decreasing_by exact length_lexeme?_lt _h

def spellings (ls : List Lexeme) : List Char := ls.flatMap Lexeme.text

def lineBreaks (cs : List Char) : Nat := cs.count '\n'

def mark (line : Nat) : List Lexeme → List Token
  | [] => []
  | l :: ls =>
    let rest := mark (line + lineBreaks l.text) ls
    if l.kind.isToken then ⟨l.kind, l.text, line⟩ :: rest else rest

def scan (cs : List Char) : Except SyntaxFault (List Token) :=
  let t := lexemes cs
  let last := 1 + lineBreaks (spellings t.1)
  match t.2 with
  | [] => .ok (mark 1 t.1 ++ [endOfFile last])
  | c :: _ => .error ⟨last, .unexpectedCharacter c⟩

theorem lexemes_of_none {cs : List Char} (h : lexeme? cs = none) : lexemes cs = ([], cs) := by
  rw [lexemes]
  split
  · rfl
  · next h' => rw [h] at h'; simp at h'

theorem lexemes_of_some {cs : List Char} {l : Lexeme} {r : List Char}
    (h : lexeme? cs = some (l, r)) : lexemes cs = (l :: (lexemes r).1, (lexemes r).2) := by
  rw [lexemes]
  split
  · next h' => rw [h] at h'; simp at h'
  · next h' =>
    rw [h] at h'
    obtain ⟨rfl, rfl⟩ := Prod.mk.inj (Option.some.inj h')
    rfl

theorem lexemes_nil : lexemes [] = ([], []) := lexemes_of_none lexeme?_nil

theorem spellings_nil : spellings [] = [] := rfl
theorem spellings_cons (l : Lexeme) (ls : List Lexeme) :
    spellings (l :: ls) = l.text ++ spellings ls := rfl

theorem lineBreaks_append (a b : List Char) :
    lineBreaks (a ++ b) = lineBreaks a + lineBreaks b := List.count_append

theorem spellings_lexemes (cs : List Char) :
    spellings (lexemes cs).1 ++ (lexemes cs).2 = cs := by
  suffices h : ∀ n, ∀ cs : List Char, cs.length ≤ n →
      spellings (lexemes cs).1 ++ (lexemes cs).2 = cs from
    h cs.length cs (Nat.le_refl _)
  intro n
  induction n with
  | zero =>
    intro cs hn
    rw [List.length_eq_zero_iff.mp (Nat.le_zero.mp hn), lexemes_nil]
    rfl
  | succ n ih =>
    intro cs hn
    cases hl : lexeme? cs with
    | none => rw [lexemes_of_none hl]; rfl
    | some t =>
      obtain ⟨l, r⟩ := t
      have hr := ih r (by have := length_lexeme?_lt hl; omega)
      rw [lexemes_of_some hl, spellings_cons, List.append_assoc, hr]
      exact (lexeme?_append hl).1.symm

end Gemfile.Token
