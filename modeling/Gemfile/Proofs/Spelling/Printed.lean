import Gemfile.Proofs.Spelling

/-!
# Segments that are written out

* `rows_append`         a row of characters of one class ends where another class begins
* `Identifier.Proper`   a number, or a word of at least one letter and of letters only
* `proper_of_mem_segments`   the segments of a text are of this kind
* `segments_written`    such segments with points between them are found again
* `segments_hyphen`     a hyphen between them stands for the word `pre`
* `read?_writtenNumbers`   numbers with points between them are a release
-/

namespace Gemfile.Version

/-! ## rows -/

lemma rows_append {k : Class} {w r : List Char} (hw : w ≠ []) (h : ∀ c ∈ w, classOf c = k)
    (hr : ∀ c, r.head? = some c → classOf c ≠ k) : rows (w ++ r) = (k, w) :: rows r := by
  induction w with
  | nil => exact absurd rfl hw
  | cons c w ih =>
    obtain ⟨rfl, hk⟩ := List.forall_mem_cons.mp h
    rw [List.cons_append]
    cases w with
    | cons d w =>
      rw [rows, ih (List.cons_ne_nil _ _) hk]
      exact if_pos rfl
    | nil =>
      cases r with
      | nil => rfl
      | cons d r =>
        obtain ⟨v, rest, e⟩ := rows_cons d r
        rw [List.nil_append, rows, e]
        exact if_neg (hr d rfl)

lemma rows_alike (cs : List Char) : ∀ p ∈ rows cs, p.2 ≠ [] ∧ ∀ c ∈ p.2, classOf c = p.1 := by
  induction cs with
  | nil => exact fun p hp => absurd hp List.not_mem_nil
  | cons c cs ih =>
    have one : ([c] : List Char) ≠ [] ∧ ∀ d ∈ [c], classOf d = classOf c := by simp
    rw [rows]
    cases hr : rows cs with
    | nil => exact List.forall_mem_singleton.mpr one
    | cons p rest =>
      obtain ⟨k, w⟩ := p
      rw [hr] at ih
      obtain ⟨hw, hrest⟩ := List.forall_mem_cons.mp ih
      dsimp only
      split
      · next hk =>
        exact List.forall_mem_cons.mpr
          ⟨⟨List.cons_ne_nil _ _, List.forall_mem_cons.mpr ⟨hk.symm, hw.2⟩⟩, hrest⟩
      · exact List.forall_mem_cons.mpr ⟨one, List.forall_mem_cons.mpr ⟨hw, hrest⟩⟩

end Version

/-! ## proper segments -/

/-- a segment as texts have them: words are not empty and have letters only -/
def Identifier.Proper : Identifier → Prop
  | .number _ => True
  | .word w => Version.RowOf Char.isAlpha w

namespace Version

lemma classOf_of_isDigit {c : Char} (h : c.isDigit = true) : classOf c = .digit := if_pos h

lemma classOf_of_isAlpha {c : Char} (h : c.isAlpha = true) : classOf c = .letter := by
  have digit : ¬ c.isDigit = true := by
    intro hd
    have := Text.range_of_isAlpha h
    have := Text.range_of_isDigit hd
    omega
  unfold classOf
  rw [if_neg digit, if_pos h]

lemma isAlpha_of_classOf {c : Char} (h : classOf c = .letter) : c.isAlpha = true := by
  unfold classOf at h
  split at h
  · cases h
  · split at h
    · assumption
    · cases h

lemma proper_of_mem_segments {cs : List Char} {i : Identifier} (h : i ∈ segments cs) : i.Proper := by
  unfold segments at h
  obtain ⟨⟨k, w⟩, hm, hi⟩ := List.mem_filterMap.mp h
  obtain ⟨hw, hk⟩ := rows_alike _ _ hm
  cases k with
  | digit =>
    cases hi
    trivial
  | letter =>
    cases hi
    exact ⟨hw, fun c hc => isAlpha_of_classOf (hk c hc)⟩
  | other => cases hi

/-- a proper segment is written as a row of one class, which is read as the segment -/
lemma row_of_proper {i : Identifier} (h : i.Proper) : ∃ k, k ≠ .other ∧ i.chars ≠ [] ∧
    (∀ c ∈ i.chars, classOf c = k) ∧ identifier? (k, i.chars) = some i := by
  cases i with
  | number n =>
    have chars : (Identifier.number n).chars = Nat.toDigits 10 n := Nat.toList_repr
    rw [chars]
    refine ⟨.digit, by decide, Nat.toDigits_ne_nil, fun c hc => ?_, ?_⟩
    · exact classOf_of_isDigit (Text.isDigit_toDigits n c hc)
    · show some (Identifier.number (Text.numeral _)) = _
      rw [Text.numeral_toDigits]
  | word w => exact ⟨.letter, by decide, h.1, fun c hc => classOf_of_isAlpha (h.2 c hc), rfl⟩

/-! ## segments with points between them -/

def written (ss : List Identifier) : List Char := Text.joined '.' (ss.map Identifier.chars)

section
variable {ss ts : List Identifier}

lemma written_cons (i : Identifier) (hs : ss ≠ []) :
    written (i :: ss) = i.chars ++ '.' :: written ss :=
  Text.joined_cons (by simpa using hs)

lemma written_append (hs : ss ≠ []) (ht : ts ≠ []) :
    written (ss ++ ts) = written ss ++ '.' :: written ts := by
  unfold written
  rw [List.map_append, Text.joined_append (by simpa using hs) (by simpa using ht)]

lemma classOf_head_written (h : ∀ i ∈ ss, i.Proper) :
    ∀ c, (written ss).head? = some c → classOf c ≠ .other := by
  cases ss with
  | nil =>
    rintro c ⟨⟩
  | cons i ss =>
    obtain ⟨k, hk, hn, hc, _⟩ := row_of_proper (List.forall_mem_cons.mp h).1
    intro c head
    have front : i.chars.head? = some c := by
      cases ss with
      | nil => exact head
      | cons j ss =>
        rwa [written_cons i (List.cons_ne_nil _ _), List.head?_append_of_ne_nil _ hn] at head
    rw [hc c (List.mem_of_head? front)]
    exact hk

lemma rows_written (h : ∀ i ∈ ss, i.Proper) : (rows (written ss)).filterMap identifier? = ss := by
  induction ss with
  | nil => rfl
  | cons i ss ih =>
    obtain ⟨hi, hs⟩ := List.forall_mem_cons.mp h
    obtain ⟨k, hk, hn, hc, read⟩ := row_of_proper hi
    cases ss with
    | nil =>
      have one : rows (i.chars ++ []) = (k, i.chars) :: rows [] :=
        rows_append hn hc (by rintro c ⟨⟩)
      rw [List.append_nil] at one
      show (rows i.chars).filterMap identifier? = _
      rw [one]
      exact List.filterMap_cons_some read
    | cons j ss =>
      -- the point is a row of its own, which is no segment
      have point : rows ('.' :: written (j :: ss)) = (.other, ['.']) :: rows (written (j :: ss)) :=
        @rows_append .other ['.'] _ (List.cons_ne_nil _ _) (List.forall_mem_singleton.mpr rfl)
          (classOf_head_written hs)
      have row : rows (i.chars ++ '.' :: written (j :: ss)) =
          (k, i.chars) :: rows ('.' :: written (j :: ss)) := by
        refine rows_append hn hc fun c hc => ?_
        cases hc
        exact hk.symm
      rw [written_cons i (List.cons_ne_nil _ _), row, List.filterMap_cons_some read,
        point, List.filterMap_cons_none rfl, ih hs]

/-! ## hyphens -/

lemma chars_of_proper {i : Identifier} (h : i.Proper) : RowOf Char.isAlphanum i.chars := by
  cases i with
  | number n =>
    have chars : (Identifier.number n).chars = Nat.toDigits 10 n := Nat.toList_repr
    rw [chars]
    exact RowOf.alphanum ⟨Nat.toDigits_ne_nil, Text.isDigit_toDigits n⟩
  | word w => exact ⟨h.1, fun c hc => by simp [Char.isAlphanum, h.2 c hc]⟩

lemma expandHyphens_written (h : ∀ i ∈ ss, i.Proper) : expandHyphens (written ss) = written ss := by
  have plain : ∀ c ∈ written ss, c ≠ '-' := by
    refine Text.forall_of_joined (by decide) fun f hf c hc => ?_
    obtain ⟨i, hi, rfl⟩ := List.mem_map.mp hf
    rintro rfl
    exact (chars_of_proper (h i hi)).not_mem rfl hc
  unfold expandHyphens
  rw [List.flatMap_congr fun c hc => if_neg (plain c hc), List.flatMap_singleton']

theorem segments_written (h : ∀ i ∈ ss, i.Proper) : segments (written ss) = ss := by
  unfold segments
  rw [expandHyphens_written h, rows_written h]

/-- the word that a hyphen stands for -/
def pre : Identifier := .word ['p', 'r', 'e']

theorem segments_hyphen (hs : ∀ i ∈ ss, i.Proper) (ht : ∀ i ∈ ts, i.Proper) (hn : ss ≠ [])
    (hn' : ts ≠ []) : segments (written ss ++ '-' :: written ts) = ss ++ pre :: ts := by
  have letters : ['p', 'r', 'e'].all Char.isAlpha = true := by decide
  have proper : ∀ i ∈ ss ++ pre :: ts, i.Proper := by
    rw [List.forall_mem_append, List.forall_mem_cons]
    exact ⟨hs, ⟨List.cons_ne_nil _ _, List.all_eq_true.mp letters⟩, ht⟩
  have expand : expandHyphens (written ss ++ '-' :: written ts) = written (ss ++ pre :: ts) := by
    rw [written_append hn (List.cons_ne_nil _ _), written_cons _ hn']
    calc expandHyphens (written ss ++ '-' :: written ts)
        = expandHyphens (written ss) ++ expandHyphens ('-' :: written ts) := List.flatMap_append
      _ = written ss ++ ('.' :: 'p' :: 'r' :: 'e' :: '.' :: expandHyphens (written ts)) := by
        rw [expandHyphens_written hs]
        rfl
      _ = written ss ++ '.' :: (pre.chars ++ '.' :: written ts) := by
        rw [expandHyphens_written ht]
        rfl
  unfold segments
  rw [expand, rows_written proper]

/-! ## reading what is written out -/

lemma isSuffix_written (h : ∀ i ∈ ss, i.Proper) (hn : ss ≠ []) : IsSuffix (written ss) := by
  refine ⟨_, by simpa using hn, fun w hw => ?_, rfl⟩
  obtain ⟨i, hi, rfl⟩ := List.mem_map.mp hw
  obtain ⟨ne, chars⟩ := chars_of_proper (h i hi)
  exact ⟨ne, fun c hc => by simp [chars c hc]⟩

end

/-- numbers with points between them -/
def writtenNumbers (ns : List Nat) : List Char := written (ns.map .number)

section
variable {ns : List Nat}

lemma proper_numbers (ns : List Nat) : ∀ i ∈ ns.map Identifier.number, i.Proper := by
  intro i hi
  obtain ⟨n, _, rfl⟩ := List.mem_map.mp hi
  trivial

lemma isRelease_writtenNumbers (hn : ns ≠ []) : IsRelease (writtenNumbers ns) := by
  obtain ⟨n, ns, rfl⟩ := List.exists_cons_of_ne_nil hn
  refine ⟨(Identifier.number n).chars, (ns.map .number).map Identifier.chars, ?_, fun w hw => ?_, rfl⟩
  · have chars : (Identifier.number n).chars = Nat.toDigits 10 n := Nat.toList_repr
    rw [chars]
    exact ⟨Nat.toDigits_ne_nil, Text.isDigit_toDigits n⟩
  · obtain ⟨i, hi, rfl⟩ := List.mem_map.mp hw
    exact chars_of_proper (proper_numbers ns i hi)

lemma releaseOf_numbers (ns : List Nat) : releaseOf (ns.map .number) = ns := by
  induction ns with
  | nil => rfl
  | cons n ns ih => rw [List.map_cons, releaseOf_number, ih]

lemma prereleaseOf_numbers (ns : List Nat) : prereleaseOf (ns.map .number) = [] := by
  induction ns with
  | nil => rfl
  | cons n ns ih => rw [List.map_cons, prereleaseOf_number, ih]

lemma read?_of_wellFormed {cs : List Char} (h : wellFormed cs = true) :
    read? cs = some (ofSegments (segments cs)) := by
  rw [read?_eq_some, Text.strip_of_not_blank (not_blank_of_wellFormed h)]
  exact ⟨h, rfl⟩

theorem read?_writtenNumbers (hn : ns ≠ []) :
    read? (writtenNumbers ns) = some (ofRelease ns []) := by
  rw [read?_of_wellFormed ((wellFormed_iff _).mpr (.release (isRelease_writtenNumbers hn)))]
  unfold writtenNumbers ofSegments
  rw [segments_written (proper_numbers ns), releaseOf_numbers, prereleaseOf_numbers]

end

end Gemfile.Version
