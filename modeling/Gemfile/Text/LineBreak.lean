import Gemfile.Text.Blank
import Gemfile.Text.Fields

/-!
# Line breaks

Files may end their lines with a line feed, a carriage return, or the two together.  Messages are
cut at these and at the other breaks of Unicode.

* `unified cs`       the text with a line feed in place of each break that a file may have
* `unified_return`   no carriage return is left in it
* `lines cs`         the lines of a text that one more line feed ends
-/

namespace Gemfile.Text

def unified : List Char → List Char
  | [] => []
  | [c] => if c = '\r' then ['\n'] else [c]
  | c :: d :: cs =>
    if c = '\r' then
      if d = '\n' then '\n' :: unified cs else '\n' :: unified (d :: cs)
    else c :: unified (d :: cs)

/-- the characters that end a line of a message, as ranges of code points -/
def breakRanges : List (Nat × Nat) := [(0x0a, 0x0d), (0x1c, 0x1e), (0x85, 0x85), (0x2028, 0x2029)]

def isBreak (c : Char) : Bool := inRanges breakRanges c.toNat

def lines (cs : List Char) : List (List Char) :=
  (fields '\n' ((unified (cs ++ ['\n'])).map fun c => if isBreak c then '\n' else c)).dropLast

theorem unified_return (cs : List Char) : '\r' ∉ unified cs := by
  fun_induction unified cs with
  | case1 => simp
  | case2 => simp
  | case3 c h =>
    rw [List.mem_singleton]
    exact fun e => h e.symm
  | case4 cs ih => simpa using ih
  | case5 d cs _ ih => simpa using ih
  | case6 c d cs h ih =>
    rw [List.mem_cons]
    exact fun e => e.elim (fun e => h e.symm) ih

end Gemfile.Text
