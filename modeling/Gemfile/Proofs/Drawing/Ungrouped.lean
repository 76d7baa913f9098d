import Gemfile.Proofs.Drawing
import Gemfile.Proofs.Loading
import Gemfile.Proofs.Table
import Gemfile.Proofs.Walk.Gems

/-!
# The gems that hang off the file

A graph is drawn from the requests of all files that were loaded and from the groups of its own.

* `Graph.Hangs gems items n`   an edge leads from the file to the gem `n`
* `Graph.hangs_iff`            that is so if a request of the gem is ungrouped
* `Recorded.drawable`          a state that has recorded gems with texts as names can be drawn
* `Load.Outside l n`, `Load.Inside l n`   the file `l` has the gem `n` outside and inside of groups
* `Load.hangs_iff`             the gems that hang off a file that was loaded
* `Load.run_hangs`             of the gems that are its own, those that it has only outside of groups
* `Load.run_not_hangs`         one that is on both sides does not, and one of an earlier file does
-/

namespace Gemfile

/-! ## edges from the file -/

namespace Graph

/-- an edge leads from the file to the node that the gem `n` has among `gems` -/
def Hangs (gems : List Gem) (items : List Item) (n : String) : Prop :=
  n ∈ gemNames gems ∧ Linked items fileId (nodeOf gems n)

lemma nodeOf_inj {gems : List Gem} {m n : String} (hm : m ∈ gemNames gems)
    (h : nodeOf gems m = nodeOf gems n) : m = n :=
  (List.idxOf_inj hm).mp (gemId_inj h)

lemma linked_file_iff {items : List Item} {b : String} :
    Linked items fileId b ↔ ∃ style, .edge fileId b style ∈ edgesFrom fileId items := by
  refine exists_congr fun style => ?_
  rw [edgesFrom, List.mem_filter]
  exact (and_iff_left (decide_eq_true (rfl : fileId = fileId))).symm

theorem hangs_iff (g : Setting) {s : State} (hs : s.Drawable) (n : String) :
    Hangs (allGems s) (itemsOf g s) n ↔ ∃ d ∈ s.ungrouped, d.name = .str n := by
  have hu : ∀ d ∈ s.ungrouped, d.name = .str d.name.text := fun d hd =>
    requested_name hs (List.mem_of_mem_filter hd)
  have hm : ∀ d ∈ s.ungrouped, d.name.text ∈ gemNames (allGems s) := fun d hd =>
    (mem_allGems hs _).mpr (.inr ⟨d, List.mem_of_mem_filter hd, hu d hd⟩)
  rw [Hangs, linked_file_iff, edges_of_file]
  constructor
  · rintro ⟨hn, style, h⟩
    rcases List.mem_append.mp h with h | h
    · obtain ⟨d, hd, he⟩ := List.mem_map.mp h
      have h1 : d.name.text = n := nodeOf_inj (hm d hd) (Item.edge.inj he).2.1
      refine ⟨d, hd, ?_⟩
      rw [hu d hd, h1]
    · -- the other edges lead to groups
      obtain ⟨p, -, he⟩ := List.mem_map.mp h
      exact absurd (Item.edge.inj he).2.1 (groupId_ne_gemId _ _)
  · rintro ⟨d, hd, hn⟩
    have h1 : d.name.text = n := by
      rw [hn]
      rfl
    refine ⟨h1 ▸ hm d hd, none, List.mem_append_left _ (List.mem_map.mpr ⟨d, hd, ?_⟩)⟩
    rw [h1]

end Graph

lemma State.exists_ungrouped {s : State} {k : Value} : (∃ d ∈ s.ungrouped, d.name = k) ↔
    (∃ d ∈ s.requests, d.name = k) ∧ ¬ ∃ e ∈ s.recorded, e.name = k := by
  unfold ungrouped
  constructor
  · rintro ⟨d, hd, rfl⟩
    obtain ⟨hr, hg⟩ := List.mem_filter.mp hd
    refine ⟨⟨d, hr, rfl⟩, ?_⟩
    rintro ⟨e, he, hn⟩
    exact of_decide_eq_true hg e he hn
  · rintro ⟨⟨d, hr, rfl⟩, hg⟩
    refine ⟨d, List.mem_filter.mpr ⟨hr, decide_eq_true fun e he hn => ?_⟩, rfl⟩
    exact hg ⟨e, he, hn⟩

/-! ## gems that were recorded -/

/-- the gem and its groups have texts as names -/
structure GemCall.Textual (c : GemCall) : Prop where
  name : ∃ n, c.name = .str n
  groups : ∀ k ∈ c.groups, ∃ n, k = .str n

lemma GemCall.dependency_name {c : GemCall} {d : Dependency} (h : c.dependency = .ok d) :
    d.name = c.name := by
  obtain ⟨rs, -, h⟩ := bind_eq_ok.mp h
  cases h
  rfl

namespace Recorded
variable {g : Setting} {cs : List GemCall} {s t : State}

/-- what is requested behind them are the requests from before and those of the gems -/
lemma mem_requests (h : Recorded g cs s t) {d : Dependency} :
    d ∈ t.requests ↔ d ∈ s.requests ∨
      ∃ c ∈ cs, c.requested g.without = true ∧ c.dependency = .ok d := by
  rw [h.requests, List.mem_append, List.mem_filterMap]
  refine or_congr_right ?_
  constructor
  · rintro ⟨c, hc, hd⟩
    obtain ⟨hc, hq⟩ := List.mem_filter.mp hc
    refine ⟨c, hc, hq, ?_⟩
    cases hk : c.dependency with
    | error f =>
      rw [hk] at hd
      cases hd
    | ok d' =>
      rw [hk] at hd
      cases hd
      rfl
  · rintro ⟨c, hc, hq, hd⟩
    refine ⟨c, List.mem_filter.mpr ⟨hc, hq⟩, ?_⟩
    rw [hd]
    rfl

lemma requests_text (h : Recorded g cs s t) (hr : ∀ d ∈ s.requests, ∃ n, d.name = .str n)
    (hc : ∀ c ∈ cs, c.Textual) : ∀ d ∈ t.requests, ∃ n, d.name = .str n := by
  intro d hd
  rcases h.mem_requests.mp hd with hd | ⟨c, hmem, -, hk⟩
  · exact hr d hd
  · rw [GemCall.dependency_name hk]
    exact (hc c hmem).name

variable (h : Recorded g cs s t) (hg : s.groups = [])
include h hg

lemma keys_eq : Table.keys t.groups = distinct (cs.flatMap GemCall.groups) := by
  have h1 := h.groups
  rw [hg] at h1
  exact h1

lemma declarations_eq (k : Scalar) : t.declarations k =
    (cs.filter fun c => among k c.groups).map GemCall.declaration := by
  have h1 := h.declarations k
  rw [hg] at h1
  exact h1

/-- a state that has recorded gems with texts as names can be drawn -/
theorem drawable (hr : ∀ d ∈ s.requests, ∃ n, d.name = .str n) (hc : ∀ c ∈ cs, c.Textual) :
    t.Drawable where
  groups k hk := by
    rw [h.keys_eq hg] at hk
    obtain ⟨c, hmem, hk⟩ := List.mem_flatMap.mp (mem_of_mem_distinctFrom hk)
    exact (hc c hmem).groups k hk
  declared e he d hd := by
    have hs : Separate (Table.keys t.groups) := by
      rw [h.keys_eq hg]
      exact distinct_separate _
    have hd' : d ∈ t.declarations e.1 := by
      rw [State.declarations, Table.get?_of_mem hs he]
      exact hd
    rw [h.declarations_eq hg] at hd'
    obtain ⟨c, hmem, rfl⟩ := List.mem_map.mp hd'
    exact (hc c (List.mem_of_mem_filter hmem)).name
  requested := h.requests_text hr hc

/-- the declarations that a state has recorded are those of the gems in groups -/
lemma exists_recorded {v : Value} :
    (∃ e ∈ t.recorded, e.name = v) ↔ ∃ c ∈ cs, c.name = v ∧ c.groups ≠ [] := by
  unfold State.recorded
  constructor
  · rintro ⟨e, he, rfl⟩
    obtain ⟨k, -, he⟩ := List.mem_flatMap.mp he
    rw [h.declarations_eq hg] at he
    obtain ⟨c, hmem, rfl⟩ := List.mem_map.mp he
    obtain ⟨hmem, hk⟩ := List.mem_filter.mp hmem
    refine ⟨c, hmem, rfl, fun hn => ?_⟩
    rw [hn] at hk
    cases hk
  · rintro ⟨c, hmem, rfl, hn⟩
    obtain ⟨k, hk⟩ := List.exists_mem_of_ne_nil _ hn
    have h1 : among k (Table.keys t.groups) = true := by
      rw [h.keys_eq hg, among_distinct]
      exact (among_iff _ _).mpr ⟨k, List.mem_flatMap.mpr ⟨c, hmem, hk⟩, (sameKey_iff k k).mpr rfl⟩
    obtain ⟨k', hk', hs⟩ := (among_iff _ _).mp h1
    refine ⟨c.declaration, List.mem_flatMap.mpr ⟨k', hk', ?_⟩, rfl⟩
    rw [h.declarations_eq hg]
    refine List.mem_map_of_mem (List.mem_filter.mpr ⟨hmem, ?_⟩)
    rw [← among_congr hs]
    exact (among_iff _ _).mpr ⟨k, hk, (sameKey_iff k k).mpr rfl⟩

end Recorded

/-! ## files -/

namespace Load

/-- the gems of a file, in order -/
def calls (l : Load) : List GemCall := l.events.filterMap Event.call?

/-- all gems and groups of a file have texts as names -/
def Textual (l : Load) : Prop := ∀ c ∈ l.calls, c.Textual

lemma Textual.of_texts {l : Load}
    (h : ∀ c ∈ l.calls, c.name = .str c.name.text ∧ ∀ k ∈ c.groups, k = .str k.text) : l.Textual :=
  fun c hc => ⟨⟨_, (h c hc).1⟩, fun k hk => ⟨_, (h c hc).2 k hk⟩⟩

def Outside (l : Load) (n : String) : Prop := ∃ c ∈ l.calls, c.name = .str n ∧ c.groups = []

def Inside (l : Load) (n : String) : Prop := ∃ c ∈ l.calls, c.name = .str n ∧ c.groups ≠ []

/-- the gem has been requested by the time of `s` -/
def Known (s : State) (n : String) : Prop := ∃ d ∈ s.requests, d.name = .str n

lemma gathered {l : Load} {s : State} (h : (l.run s).fault = none) :
    Gathered l.setting l.calls (l.begun s) (l.run s).state := by
  rw [run_events] at h ⊢
  obtain ⟨-, h⟩ := Option.or_eq_none_iff.mp h
  exact Event.runAll_done (Outcome.mk.injEq .. ▸ ⟨rfl, h⟩)

lemma requests_text {l : Load} (hl : l.Textual) {s : State}
    (hs : ∀ d ∈ s.requests, ∃ n, d.name = .str n) :
    ∀ d ∈ (l.run s).state.requests, ∃ n, d.name = .str n := by
  obtain ⟨cs, hp, -, h⟩ := Event.runAll_recorded l.setting l.events (l.begun s)
  rw [run_events]
  exact h.requests_text hs fun c hc => hl c (hp.subset hc)

lemma requests_text_runAll {ls : List Load} (hl : ∀ l ∈ ls, l.Textual) {s : State}
    (hs : ∀ d ∈ s.requests, ∃ n, d.name = .str n) :
    ∀ d ∈ (runAll ls s).requests, ∃ n, d.name = .str n := by
  induction ls generalizing s with
  | nil => exact hs
  | cons l ls ih =>
    obtain ⟨h1, h2⟩ := List.forall_mem_cons.mp hl
    exact ih h2 (requests_text h1 hs)

lemma known_run {l : Load} {s : State} (h : (l.run s).fault = none) {n : String}
    (hn : ¬ l.Inside n) : Known (l.run s).state n ↔ Known s n ∨ l.Outside n := by
  have hg := gathered h
  constructor
  · rintro ⟨d, hd, hname⟩
    rcases hg.mem_requests.mp hd with hd | ⟨c, hc, -, hk⟩
    · exact .inl ⟨d, hd, hname⟩
    · rw [GemCall.dependency_name hk] at hname
      exact .inr ⟨c, hc, hname, by_contra fun hne => hn ⟨c, hc, hname, hne⟩⟩
  · rintro (⟨d, hd, hname⟩ | ⟨c, hc, hname, hempty⟩)
    · exact ⟨d, hg.mem_requests.mpr (.inl hd), hname⟩
    · have hq : c.requested l.setting.without = true := by
        rw [GemCall.requested, hempty]
        rfl
      obtain ⟨d, hd⟩ := hg.requested c hc hq
      refine ⟨d, hg.mem_requests.mpr (.inr ⟨c, hc, hq, hd⟩), ?_⟩
      rw [GemCall.dependency_name hd, hname]

/-- what hangs off a file is every gem that has been requested and that the file has in no group -/
theorem hangs_iff {l : Load} {s : State} (h : (l.run s).fault = none) (hl : l.Textual)
    (hs : ∀ d ∈ s.requests, ∃ n, d.name = .str n) (n : String) :
    Graph.Hangs (Graph.allGems (l.run s).state) (Graph.itemsOf l.setting (l.run s).state) n ↔
      (Known s n ∨ l.Outside n) ∧ ¬ l.Inside n := by
  have hg := (gathered h).toRecorded
  rw [Graph.hangs_iff _ (hg.drawable rfl hs hl), State.exists_ungrouped, hg.exists_recorded rfl]
  exact and_congr_left fun hn => known_run h hn

/-- Of the gems that a file has itself, or that no file before it has requested, there hang off it
those that it has outside of groups and nowhere inside. -/
theorem run_hangs {before : List Load} {l : Load} (sources : Sources)
    (hb : ∀ m ∈ before, m.Textual) (hl : l.Textual)
    (h : (l.run (runAll before (.start sources))).fault = none) :
    let s := runAll before (.start sources)
    let t := (l.run s).state
    ∃ items, Graph.ofState l.setting t = .ok items ∧
      Graph.nodesOf "rectangle" items = Graph.boxes (Graph.allGems t) ∧
      ∀ n, (Known s n → l.Outside n ∨ l.Inside n) →
        (Graph.Hangs (Graph.allGems t) items n ↔ l.Outside n ∧ ¬ l.Inside n) := by
  intro s t
  have hs : ∀ d ∈ s.requests, ∃ n, d.name = .str n := requests_text_runAll hb nofun
  refine ⟨_, Graph.ofState_items ((gathered h).drawable rfl hs hl) l.setting,
    Graph.boxes_itemsOf l.setting t, fun n hk => ?_⟩
  rw [hangs_iff h hl hs]
  constructor
  · rintro ⟨ho | ho, hi⟩
    · exact ⟨(hk ho).resolve_right hi, hi⟩
    · exact ⟨ho, hi⟩
  · rintro ⟨ho, hi⟩
    exact ⟨.inr ho, hi⟩

/-- a file behind one that requests a gem, with a gem inside of a group and one outside -/
theorem run_hangs_behind :
    let g : Setting := ⟨⟨0, ["Gemfile"]⟩, [], some (.native "3.0.0"), .absent⟩
    let l : Load := ⟨g, .ok "gem 'b'\ngem 'c', group: :test\n"⟩
    let t := (l.run (runAll [⟨g, .ok "gem 'a'"⟩] (.start .standard))).state
    ∃ items, Graph.ofState g t = .ok items ∧
      Graph.Hangs (Graph.allGems t) items "b" ∧ ¬ Graph.Hangs (Graph.allGems t) items "c" := by
  intro g l t
  have hb : ∀ m ∈ [Load.mk g (.ok "gem 'a'")], m.Textual := by
    intro m hm
    rw [List.mem_singleton.mp hm]
    exact .of_texts (by decide +kernel)
  obtain ⟨items, h1, -, h⟩ := run_hangs .standard hb
    (Textual.of_texts (l := l) (by decide +kernel)) (by decide +kernel)
  have b1 : l.Outside "b" := by unfold Outside; decide +kernel
  have b2 : ¬ l.Inside "b" := by unfold Inside; decide +kernel
  have c1 : l.Inside "c" := by unfold Inside; decide +kernel
  exact ⟨items, h1, (h "b" fun _ => .inl b1).mpr ⟨b1, b2⟩,
    fun hc => ((h "c" fun _ => .inr c1).mp hc).2 c1⟩

/-- behind a file that requests `b`: a gem that is outside of groups and inside of one does not hang
off the file, and `b` does, which the file does not have -/
theorem run_not_hangs :
    let g : Setting := ⟨⟨0, ["Gemfile"]⟩, [], some (.native "3.0.0"), .absent⟩
    let l : Load := ⟨g, .ok "gem 'a'\ngem 'a', group: :test\n"⟩
    let o := l.run (runAll [⟨g, .ok "gem 'b'"⟩] (.start .standard))
    o.fault = none ∧ l.Textual ∧ ∃ items, Graph.ofState g o.state = .ok items ∧
      (l.Outside "a" ∧ ¬ Graph.Hangs (Graph.allGems o.state) items "a") ∧
      (¬ l.Outside "b" ∧ Graph.Hangs (Graph.allGems o.state) items "b") := by
  intro g l o
  have h : o.fault = none := by decide +kernel
  have hl : l.Textual := .of_texts (by decide +kernel)
  have hb : ∀ m ∈ [Load.mk g (.ok "gem 'b'")], m.Textual := by
    intro m hm
    rw [List.mem_singleton.mp hm]
    exact .of_texts (by decide +kernel)
  have hs : ∀ d ∈ (runAll [⟨g, .ok "gem 'b'"⟩] (.start .standard)).requests, ∃ n, d.name = .str n :=
    requests_text_runAll hb nofun
  have a1 : l.Outside "a" := by unfold Outside; decide +kernel
  have a2 : l.Inside "a" := by unfold Inside; decide +kernel
  have b1 : ¬ l.Outside "b" := by unfold Outside; decide +kernel
  have b2 : ¬ l.Inside "b" := by unfold Inside; decide +kernel
  have b3 : Known (runAll [⟨g, .ok "gem 'b'"⟩] (.start .standard)) "b" := by
    unfold Known
    decide +kernel
  refine ⟨h, hl, _, Graph.ofState_items ((gathered h).drawable rfl hs hl) g, ⟨a1, ?_⟩, b1, ?_⟩
  · rw [hangs_iff h hl hs]
    exact fun hn => hn.2 a2
  · rw [hangs_iff h hl hs]
    exact ⟨.inl b3, b2⟩

end Load

end Gemfile
