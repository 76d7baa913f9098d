import Gemfile.Proofs.Text
import Gemfile.Requirement

/-!
# Spelled versions

* `Spelled cs`                what versions look like, said without reading them
* `wellFormed_iff`            exactly these texts are well formed
* `isSpelling_of_wellFormed`, `head_of_wellFormed`   the characters of a version, and the digit in front
* `not_blank_of_wellFormed`   no blank is among them
* `numbersIn s`               the numbers that a text has in front of its first word
* `numbersIn_ne_nil`, `ofRelease_numbersIn`   a version has at least one of them, and they make its three
                              numbers
-/

namespace Gemfile.Version

lemma allOf_iff {p : Char → Bool} {cs : List Char} :
    allOf p cs = true ↔ cs ≠ [] ∧ ∀ c ∈ cs, p c = true := by
  unfold allOf
  simp

/-! ## the grammar of versions -/

/-- at least one character, and all of the class `p` -/
def RowOf (p : Char → Bool) (cs : List Char) : Prop := cs ≠ [] ∧ ∀ c ∈ cs, p c = true

/-- `digits ('.' (digit | letter)+)*` -/
def IsRelease (cs : List Char) : Prop :=
  ∃ n ws, RowOf Char.isDigit n ∧ (∀ w ∈ ws, RowOf Char.isAlphanum w) ∧
    cs = Text.joined '.' (n :: ws)

/-- `(digit | letter | '-')+ ('.' (digit | letter | '-')+)*` -/
def IsSuffix (cs : List Char) : Prop :=
  ∃ ws, ws ≠ [] ∧ (∀ w ∈ ws, RowOf (fun c => c.isAlphanum || c == '-') w) ∧
    cs = Text.joined '.' ws

/-- `release ['-' suffix]` -/
inductive Spelled : List Char → Prop
  | release {r : List Char} : IsRelease r → Spelled r
  | prerelease {r p : List Char} : IsRelease r → IsSuffix p → Spelled (r ++ '-' :: p)

lemma RowOf.not_mem {p : Char → Bool} {cs : List Char} (h : RowOf p cs) {c : Char}
    (hc : p c = false) : c ∉ cs := by
  intro hm
  rw [h.2 c hm] at hc
  cases hc

lemma RowOf.alphanum {cs : List Char} (h : RowOf Char.isDigit cs) : RowOf Char.isAlphanum cs :=
  ⟨h.1, fun c hc => by simp [Char.isAlphanum, h.2 c hc]⟩

/-- all the fields of a release are rows of digits and letters -/
lemma IsRelease.fields {cs : List Char} (h : IsRelease cs) :
    ∃ ws, (∀ w ∈ ws, RowOf Char.isAlphanum w) ∧ cs = Text.joined '.' ws := by
  obtain ⟨n, ws, hn, hw, rfl⟩ := h
  exact ⟨n :: ws, List.forall_mem_cons.mpr ⟨hn.alphanum, hw⟩, rfl⟩

lemma wellFormedRelease_iff (cs : List Char) : wellFormedRelease cs = true ↔ IsRelease cs := by
  unfold wellFormedRelease
  constructor
  · intro h
    cases hf : Text.fields '.' cs with
    | nil => exact absurd hf (Text.fields_ne_nil _ _)
    | cons n ws =>
      rw [hf] at h
      obtain ⟨hn, hw⟩ := Bool.and_eq_true_iff.mp h
      refine ⟨n, ws, allOf_iff.mp hn, fun w hm => allOf_iff.mp (List.all_eq_true.mp hw w hm), ?_⟩
      rw [← hf, Text.joined_fields]
  · rintro ⟨n, ws, hn, hw, rfl⟩
    have apart : ∀ f ∈ n :: ws, '.' ∉ f := fun f hf =>
      (List.forall_mem_cons.mpr ⟨hn.alphanum, hw⟩ f hf).not_mem rfl
    rw [Text.fields_joined (List.cons_ne_nil _ _) apart]
    exact Bool.and_eq_true_iff.mpr
      ⟨allOf_iff.mpr hn, List.all_eq_true.mpr fun w hm => allOf_iff.mpr (hw w hm)⟩

lemma wellFormedSuffix_iff (cs : List Char) : wellFormedSuffix cs = true ↔ IsSuffix cs := by
  unfold wellFormedSuffix
  constructor
  · intro h
    exact ⟨_, Text.fields_ne_nil _ _, fun w hm => allOf_iff.mp (List.all_eq_true.mp h w hm),
      (Text.joined_fields '.' cs).symm⟩
  · rintro ⟨ws, hn, hw, rfl⟩
    rw [Text.fields_joined hn fun w hm => (hw w hm).not_mem rfl]
    exact List.all_eq_true.mpr fun w hm => allOf_iff.mpr (hw w hm)

/-- the release is what stands in front of the first hyphen -/
lemma IsRelease.not_hyphen {cs : List Char} (h : IsRelease cs) : ∀ c ∈ cs, (c != '-') = true := by
  obtain ⟨ws, hw, rfl⟩ := h.fields
  refine Text.forall_of_joined (P := fun c => (c != '-') = true) rfl fun w hm c hc => ?_
  rw [bne_iff_ne]
  rintro rfl
  exact (hw w hm).not_mem rfl hc

theorem wellFormed_iff (cs : List Char) : wellFormed cs = true ↔ Spelled cs := by
  unfold wellFormed
  constructor
  · intro h
    obtain ⟨release, suffix⟩ := Bool.and_eq_true_iff.mp h
    have release := (wellFormedRelease_iff _).mp release
    rw [← List.takeWhile_append_dropWhile (p := (· != '-')) (l := cs)]
    cases hd : cs.dropWhile (· != '-') with
    | nil =>
      rw [List.append_nil]
      exact .release release
    | cons d ds =>
      rw [hd] at suffix
      have hyphen := List.head?_dropWhile_not (· != '-') cs
      rw [hd] at hyphen
      obtain rfl : d = '-' := by simpa using hyphen
      exact .prerelease release ((wellFormedSuffix_iff _).mp suffix)
  · intro h
    cases h with
    | release hr =>
      rw [List.takeWhile_eq_self_iff.mpr hr.not_hyphen, List.dropWhile_eq_nil_iff.mpr hr.not_hyphen]
      exact Bool.and_eq_true_iff.mpr ⟨(wellFormedRelease_iff _).mpr hr, rfl⟩
    | prerelease hr hp =>
      rw [List.takeWhile_append_of_pos hr.not_hyphen, List.dropWhile_append_of_pos hr.not_hyphen,
        List.takeWhile_cons_of_neg (by simp), List.dropWhile_cons_of_neg (by simp), List.append_nil]
      exact Bool.and_eq_true_iff.mpr
        ⟨(wellFormedRelease_iff _).mpr hr, (wellFormedSuffix_iff _).mpr hp⟩

/-! ## the characters of a version -/

/-- a character that versions are written with -/
def isSpelling (c : Char) : Bool := c.isAlphanum || c == '.' || c == '-'

lemma not_blank_of_isSpelling {c : Char} (h : isSpelling c = true) : Text.isBlank c = false := by
  have range : 45 ≤ c.toNat ∧ c.toNat ≤ 122 := by
    simp only [isSpelling, Char.isAlphanum, Bool.or_eq_true, beq_iff_eq] at h
    rcases h with ((h | h) | rfl) | rfl
    · have := Text.range_of_isAlpha h
      omega
    · have := Text.range_of_isDigit h
      omega
    · decide
    · decide
  have hr : ∀ r ∈ Text.blankRanges, r.2 ≤ 32 ∨ 122 < r.1 := by decide
  unfold Text.isBlank Text.inRanges
  rw [List.any_eq_false]
  intro r hm
  have := hr r hm
  simp only [Bool.and_eq_true, decide_eq_true_eq]
  omega

lemma IsRelease.isSpelling {cs : List Char} (h : IsRelease cs) :
    ∀ c ∈ cs, isSpelling c = true := by
  obtain ⟨ws, hw, rfl⟩ := h.fields
  refine Text.forall_of_joined (P := (Version.isSpelling · = true)) rfl fun w hm c hc => ?_
  simp [Version.isSpelling, (hw w hm).2 c hc]

lemma IsSuffix.isSpelling {cs : List Char} (h : IsSuffix cs) : ∀ c ∈ cs, isSpelling c = true := by
  obtain ⟨ws, _, hw, rfl⟩ := h
  refine Text.forall_of_joined (P := (Version.isSpelling · = true)) rfl fun w hm c hc => ?_
  have hc := (hw w hm).2 c hc
  unfold Version.isSpelling
  rw [Bool.or_eq_true] at hc ⊢
  exact hc.imp_left fun word => by rw [word]; rfl

lemma isSpelling_of_wellFormed {cs : List Char} (h : wellFormed cs = true) :
    ∀ c ∈ cs, isSpelling c = true := by
  cases (wellFormed_iff cs).mp h with
  | release hr => exact hr.isSpelling
  | prerelease hr hp =>
    rw [List.forall_mem_append, List.forall_mem_cons]
    exact ⟨hr.isSpelling, rfl, hp.isSpelling⟩

lemma not_blank_of_wellFormed {cs : List Char} (h : wellFormed cs = true) :
    ∀ c ∈ cs, Text.isBlank c = false :=
  fun c hc => not_blank_of_isSpelling (isSpelling_of_wellFormed h c hc)

lemma IsRelease.head {cs : List Char} (h : IsRelease cs) : ∃ d r, cs = d :: r ∧ d.isDigit = true := by
  obtain ⟨n, ws, ⟨hn, hd⟩, _, rfl⟩ := h
  obtain ⟨d, n, rfl⟩ := List.exists_cons_of_ne_nil hn
  have front : ∃ r, Text.joined '.' ((d :: n) :: ws) = d :: r := by
    cases ws with
    | nil => exact ⟨n, rfl⟩
    | cons w ws => exact ⟨_, rfl⟩
  obtain ⟨r, hr⟩ := front
  exact ⟨d, r, hr, hd d List.mem_cons_self⟩

lemma head_of_wellFormed {cs : List Char} (h : wellFormed cs = true) :
    ∃ d r, cs = d :: r ∧ d.isDigit = true := by
  cases (wellFormed_iff cs).mp h with
  | release hr => exact hr.head
  | prerelease hr hp =>
    obtain ⟨d, r, rfl, hd⟩ := hr.head
    exact ⟨d, _, rfl, hd⟩

lemma versionLike_of_wellFormed {cs : List Char} (h : wellFormed cs = true) :
    Requirement.versionLike cs = true := by
  obtain ⟨d, r, rfl, hd⟩ := head_of_wellFormed h
  unfold Requirement.versionLike
  rw [Bool.and_eq_true]
  exact ⟨hd, List.all_eq_true.mpr (isSpelling_of_wellFormed h)⟩

lemma rows_cons (c : Char) (cs : List Char) :
    ∃ w rest, rows (c :: cs) = (classOf c, c :: w) :: rest := by
  unfold rows
  cases rows cs with
  | nil => exact ⟨[], [], rfl⟩
  | cons r rest =>
    obtain ⟨k, w⟩ := r
    by_cases hk : k = classOf c
    · exact ⟨w, rest, by rw [← hk]; exact if_pos rfl⟩
    · exact ⟨[], (k, w) :: rest, if_neg hk⟩

lemma releaseOf_segments_ne_nil {cs : List Char} (h : wellFormed cs = true) :
    releaseOf (segments cs) ≠ [] := by
  obtain ⟨d, r, rfl, hd⟩ := head_of_wellFormed h
  have hyphen : d ≠ '-' := by
    rintro rfl
    cases hd
  have digit : classOf d = .digit := if_pos hd
  have expand : expandHyphens (d :: r) = d :: expandHyphens r := by
    unfold expandHyphens
    rw [List.flatMap_cons, if_neg hyphen]
    rfl
  obtain ⟨w, rest, hw⟩ := rows_cons d (expandHyphens r)
  unfold segments
  rw [expand, hw, digit]
  exact List.cons_ne_nil _ _

/-- the numbers that a text has in front of its first word -/
def numbersIn (s : String) : List Nat := releaseOf (segments (Text.strip s.toList))

section
variable {s : String} {v : Version}

lemma ofValue_eq_ok : ofValue (.str s) = .ok v ↔ read? s.toList = some v := by
  unfold ofValue
  cases hr : read? s.toList with
  | none => simp [hr]
  | some w => simp [hr]

lemma read?_eq_some {cs : List Char} : read? cs = some v ↔
    wellFormed (Text.strip cs) = true ∧ v = ofSegments (segments (Text.strip cs)) := by
  unfold read?
  by_cases h : wellFormed (Text.strip cs) = true
  · simp [h, eq_comm]
  · simp [h]

lemma numbersIn_ne_nil (h : ofValue (.str s) = .ok v) : numbersIn s ≠ [] :=
  releaseOf_segments_ne_nil (read?_eq_some.mp (ofValue_eq_ok.mp h)).1

lemma ofRelease_numbersIn (h : ofValue (.str s) = .ok v) :
    v = ofRelease (numbersIn s) v.prerelease := by
  obtain ⟨_, rfl⟩ := read?_eq_some.mp (ofValue_eq_ok.mp h)
  rfl

end

end Gemfile.Version
