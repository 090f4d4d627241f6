import PipelineLang.Proofs.Server.Eviction

/-!
# What has just been looked up is still cached

A clock that does not go back reads at a lookup nothing earlier than before (`Reached.lastAccess_le`),
so an entry that was just built is among those accessed last. Eviction takes it only where the
identifiers have to decide: all other entries that fill the cache were accessed at the same reading
and have larger identifiers (`Outranked`). Otherwise the document is cached at its version, and asking
for it again builds nothing (`fresh_unless_outranked`).
-/

namespace PipelineLang

/-- A name before all others is written at the front. -/
theorem Table.insertIn_of_lt {α : Type} {name : String} {entries : List (String × α)}
    (h : ∀ p ∈ entries, name < p.1) (a : α) : insertIn name a entries = (name, a) :: entries := by
  cases entries with
  | nil => rfl
  | cons e rest =>
    have hlt : name < e.1 := h e List.mem_cons_self
    rw [insertIn, if_neg hlt.ne', if_pos hlt]

namespace Server

/-- The reading of the clock for an operation, if it takes one. -/
def CacheOp.clock? : CacheOp → Option Nat
  | .get now _ _ _ => some now
  | .invalidate _ | .clear => none

namespace Cache

variable {α : Type} {build : List Char → Option α} {limits : CacheLimits} {now : Nat}
  {c after : Cache α} {id : String} {version : Int} {text : List Char} {a : α}

/-! ## Clocks that do not go back -/

/-- The cache is one that operations lead to, with readings of a clock that never went back and that
reads `now` at last. -/
def Reached (build : List Char → Option α) (limits : CacheLimits) (now : Nat) (c : Cache α) : Prop :=
  ∃ ops : List CacheOp, (ops.filterMap CacheOp.clock? ++ [now]).Pairwise (· ≤ ·) ∧
    c = (empty limits).run build ops

/-- An entry behind an operation was there before, or was accessed at the reading for it. -/
theorem mem_apply {op : CacheOp} {p : String × CacheEntry α}
    (h : p ∈ (c.apply build op).entries.entries) :
    p ∈ c.entries.entries ∨ op.clock? = some p.2.lastAccess := by
  cases op with
  | invalidate id => exact Or.inl (Table.mem_erase.1 h).1
  | clear => cases h
  | get now id version text =>
    rw [Cache.apply] at h
    by_cases hhit : c.versionOf? id = some version
    · obtain ⟨e, hfind, rfl⟩ := versionOf?_eq_some.1 hhit
      rw [get_of_cached hfind] at h
      rcases Table.mem_insert h with rfl | hold
      · exact Or.inr rfl
      · exact Or.inl hold
    · cases hbuild : build text with
      | none =>
        rw [get_of_failed hhit hbuild] at h
        exact Or.inl h
      | some a =>
        rw [get_of_built hhit hbuild] at h
        rcases Table.mem_insert (mem_evict h) with rfl | hold
        · exact Or.inr rfl
        · exact Or.inl hold

/-- Operations before a reading leave no entry that was accessed behind it. -/
theorem lastAccess_run_le {ops : List CacheOp} (hops : ∀ t ∈ ops.filterMap CacheOp.clock?, t ≤ now)
    (h : ∀ p ∈ c.entries.entries, p.2.lastAccess ≤ now) :
    ∀ p ∈ (c.run build ops).entries.entries, p.2.lastAccess ≤ now := by
  induction ops generalizing c with
  | nil => exact h
  | cons op ops ih =>
    refine ih (fun t ht => hops t ?_) fun p hp => ?_
    · obtain ⟨o, ho, hread⟩ := List.mem_filterMap.1 ht
      exact List.mem_filterMap.2 ⟨o, List.mem_cons_of_mem op ho, hread⟩
    · rcases mem_apply hp with hold | hread
      · exact h p hold
      · exact hops _ (List.mem_filterMap.2 ⟨op, List.mem_cons_self, hread⟩)

namespace Reached

theorem lastAccess_le (h : Reached build limits now c) :
    ∀ p ∈ c.entries.entries, p.2.lastAccess ≤ now := by
  obtain ⟨ops, hclock, rfl⟩ := h
  refine lastAccess_run_le (fun t ht => ?_) nofun
  exact (List.pairwise_append.1 hclock).2.2 t ht now (List.mem_singleton_self now)

theorem exists_explained (h : Reached build limits now c) :
    ∃ history, Explained build limits history c := by
  obtain ⟨ops, -, rfl⟩ := h
  exact ⟨_, (Explained.empty build limits).run ops⟩

end Reached

/-! ## The new entry among the others -/

/-- The cache is full of entries accessed at the reading, and all of them have larger identifiers. -/
structure Outranked (c : Cache α) (now : Nat) (id : String) : Prop where
  full : c.size = c.limits.maxEntries
  above : ∀ p ∈ c.entries.entries, p.2.lastAccess = now ∧ id < p.1

theorem self_mem_filled (hsorted : c.entries.Sorted) :
    (id, ⟨version, a, now⟩) ∈ (c.filled id version a now).entries :=
  (mem_filled hsorted).2 (Or.inl ⟨rfl, rfl⟩)

theorem self_mem_recent (hsorted : c.entries.Sorted) :
    (id, ⟨version, a, now⟩) ∈ recent c.limits now (c.filled id version a now).entries := by
  refine List.mem_filter.2 ⟨self_mem_filled hsorted, decide_eq_true ?_⟩
  rw [Nat.sub_self]
  exact Nat.zero_le _

section Kept

variable {kept : List (String × CacheEntry α)} (hsorted : c.entries.Sorted)
  (hkept : Kept c.limits now (c.filled id version a now).entries kept)
include hsorted hkept

/-- A new entry that is not kept is outranked by all that there is room for. -/
theorem outranked_of_not_mem_kept (hsize : c.size ≤ c.limits.maxEntries)
    (hclock : ∀ p ∈ c.entries.entries, p.2.lastAccess ≤ now)
    (hnot : (id, ⟨version, a, now⟩) ∉ kept) : c.Outranked now id := by
  have hnames : (c.filled id version a now).names.Nodup := (hsorted.insert _ _).nodup_names
  have hmany : c.limits.maxEntries < (c.filled id version a now).entries.length := by
    refine Nat.lt_of_not_le fun hfew => hnot ?_
    exact (hkept.few hfew).mem_iff.2 (self_mem_filled hsorted)
  have hlarge : c.limits.maxEntries
      < (recent c.limits now (c.filled id version a now).entries).length := by
    refine Nat.lt_of_not_le fun hsmall => hnot ?_
    exact (hkept.fewRecent hmany hsmall).mem_iff.2 (self_mem_recent hsorted)
  have hlatest := hkept.many hmany hlarge
  have hold : kept ⊆ c.entries.entries := by
    intro p hp
    have hmem := (List.mem_filter.1 (hlatest.subperm.subset hp)).1
    rcases (mem_filled hsorted).1 hmem with ⟨hid, he⟩ | ⟨-, hold⟩
    · have hself : p = (id, ⟨version, a, now⟩) := Prod.ext hid he
      exact absurd (hself ▸ hp) hnot
    · exact hold
  -- as many are kept as there were, so it is all of them that are kept
  have hnodup : kept.Nodup := hlatest.nodup ((nodup_entries hnames).filter _)
  have hperm : kept.Perm c.entries.entries := by
    refine (hnodup.subperm hold).perm_of_length_le ?_
    rw [hlatest.length_eq]
    exact hsize
  refine ⟨hperm.length_eq.symm.trans hlatest.length_eq, fun p hp => ?_⟩
  have hlt := hlatest.rank_lt _ (self_mem_recent hsorted) hnot p (hperm.mem_iff.2 hp)
  rcases Prod.Lex.toLex_lt_toLex.1 hlt with hlater | ⟨hsame, hid⟩
  · exact absurd (hclock p hp) (Nat.not_le.2 hlater)
  · exact ⟨hsame.symm, hid⟩

/-- A new entry that is outranked is the one that goes. -/
theorem Outranked.not_mem_kept (h : c.Outranked now id) : (id, ⟨version, a, now⟩) ∉ kept := by
  have hfilled : (c.filled id version a now).entries
      = (id, ⟨version, a, now⟩) :: c.entries.entries :=
    Table.insertIn_of_lt (fun p hp => (h.above p hp).2) _
  have hlength : (c.filled id version a now).entries.length = c.limits.maxEntries + 1 := by
    rw [hfilled, List.length_cons, ← h.full]
    rfl
  have hrecent : recent c.limits now (c.filled id version a now).entries
      = (c.filled id version a now).entries := by
    refine List.filter_eq_self.2 fun p hp => decide_eq_true ?_
    have haccess : p.2.lastAccess = now := by
      rw [hfilled] at hp
      rcases List.mem_cons.1 hp with rfl | hp
      · rfl
      · exact (h.above p hp).1
    rw [haccess, Nat.sub_self]
    exact Nat.zero_le _
  have hlatest := hkept.many (by omega) (by rw [hrecent]; omega)
  rw [hrecent] at hlatest
  intro hmem
  -- something else is not kept, and it would have gone after the new entry
  obtain ⟨d, hd, hgone⟩ : ∃ d ∈ (c.filled id version a now).entries, d ∉ kept := by
    by_contra hall
    have hnodup : (c.filled id version a now).entries.Nodup :=
      nodup_entries (hsorted.insert _ _).nodup_names
    have hle := (hnodup.subperm fun d hd => by_contra fun hgone => hall ⟨d, hd, hgone⟩).length_le
    rw [hlatest.length_eq, hlength] at hle
    omega
  have hlt := hlatest.rank_lt d hd hgone _ hmem
  rw [hfilled] at hd
  rcases List.mem_cons.1 hd with rfl | hd
  · exact hgone hmem
  · obtain ⟨hsame, hid⟩ := h.above d hd
    exact lt_asymm hlt (Prod.Lex.toLex_lt_toLex.2 (Or.inr ⟨hsame.symm, hid⟩))

end Kept

/-! ## Lookups that give a value -/

/-- A version that is cached is found without building. -/
theorem builds_get_of_versionOf? (h : c.versionOf? id = some version) (build : List Char → Option α)
    (now : Nat) (text : List Char) :
    (c.get build now id version text).1.builds = c.builds := by
  obtain ⟨e, hfind, rfl⟩ := versionOf?_eq_some.1 h
  rw [get_of_cached hfind]

/-- A version that is not cached is built, with success or without. -/
theorem builds_get_of_miss (h : c.versionOf? id ≠ some version) (build : List Char → Option α)
    (now : Nat) (text : List Char) :
    (c.get build now id version text).1.builds = c.builds + 1 := by
  cases hbuild : build text with
  | none => rw [get_of_failed h hbuild]
  | some a => rw [get_of_built h hbuild]

/-- A version that is found stays cached. -/
theorem versionOf?_get_of_cached (h : c.versionOf? id = some version)
    (build : List Char → Option α) (now : Nat) (text : List Char) :
    (c.get build now id version text).1.versionOf? id = some version := by
  obtain ⟨e, hfind, rfl⟩ := versionOf?_eq_some.1 h
  rw [get_of_cached hfind, versionOf?, Table.find?_insert, if_pos rfl]
  rfl

/-- A document that is cached is not outranked. -/
theorem Outranked.versionOf?_eq_none (h : c.Outranked now id) : c.versionOf? id = none := by
  rw [versionOf?, Option.map_eq_none_iff, Option.eq_none_iff_forall_ne_some]
  intro e hfind
  exact lt_irrefl id (h.above _ (Table.mem_of_find? hfind)).2

/-- Eviction leaves the new entry if and only if it is not outranked. -/
theorem find?_evict_filled (h : Reached build limits now c) :
    (¬c.Outranked now id →
        (evict c.limits now (c.filled id version a now)).find? id = some ⟨version, a, now⟩) ∧
      (c.Outranked now id → (evict c.limits now (c.filled id version a now)).find? id = none) := by
  obtain ⟨history, hexplained⟩ := h.exists_explained
  have hsorted := hexplained.sorted
  have hfilled : (c.filled id version a now).Sorted := hsorted.insert _ _
  have hkept := kept_evict hfilled.nodup_names c.limits now
  refine ⟨fun hfree => ?_, fun houtranked => Option.eq_none_iff_forall_ne_some.2 fun e hfind => ?_⟩
  · have hsize : c.size ≤ c.limits.maxEntries := hexplained.limited ▸ hexplained.size_le
    refine (sorted_evict hfilled _ _).find?_of_mem (by_contra fun hnot => hfree ?_)
    exact outranked_of_not_mem_kept hsorted hkept hsize h.lastAccess_le hnot
  · have hmem := Table.mem_of_find? hfind
    rcases (mem_filled hsorted).1 (mem_evict hmem) with ⟨-, rfl⟩ | ⟨hother, -⟩
    · exact houtranked.not_mem_kept hsorted hkept hmem
    · exact hother rfl

/-- What a lookup that gives a value leaves of the document. -/
theorem versionOf?_get_of_ok (h : Reached build limits now c)
    (hget : c.get build now id version text = (after, .ok a)) :
    (¬c.Outranked now id → after.versionOf? id = some version) ∧
      (c.Outranked now id → after.versionOf? id = none) := by
  by_cases hhit : c.versionOf? id = some version
  · have hafter : after.versionOf? id = some version := by
      rw [← versionOf?_get_of_cached hhit build now text, hget]
    refine ⟨fun _ => hafter, fun houtranked => ?_⟩
    rw [houtranked.versionOf?_eq_none] at hhit
    cases hhit
  · cases hbuild : build text with
    | none =>
      rw [get_of_failed hhit hbuild] at hget
      cases hget
    | some b =>
      rw [get_of_built hhit hbuild] at hget
      cases hget
      obtain ⟨hfree, houtranked⟩ := find?_evict_filled h
      exact ⟨fun hnot => versionOf?_eq_some.2 ⟨_, hfree hnot, rfl⟩,
        fun hrank => Option.map_eq_none_iff.2 (houtranked hrank)⟩

/-- **A fresh analysis stays unless it is outranked.** Let a lookup give a value, with a clock that
never went back. Then the document is cached at the version that was asked for, and asking for it
again builds nothing, at whatever time and with whatever builder. The one exception is a cache that
is full of entries accessed at the same reading of the clock, all with larger identifiers: of entries
accessed at one time the smallest identifier goes first, so the new entry goes at once and the next
lookup builds again. -/
theorem fresh_unless_outranked (h : Reached build limits now c)
    (hget : c.get build now id version text = (after, .ok a)) :
    (¬c.Outranked now id → after.versionOf? id = some version ∧
      ∀ anew later again, (after.get anew later id version again).1.builds = after.builds) ∧
    (c.Outranked now id → after.versionOf? id = none ∧
      ∀ anew later again, (after.get anew later id version again).1.builds = after.builds + 1) := by
  obtain ⟨hfree, houtranked⟩ := versionOf?_get_of_ok h hget
  refine ⟨fun hnot => ⟨hfree hnot, builds_get_of_versionOf? (hfree hnot)⟩,
    fun hrank => ⟨houtranked hrank, builds_get_of_miss ?_⟩⟩
  rw [houtranked hrank]
  exact nofun

/-- A cache with room for one entry that holds one, accessed at the reading 0. -/
def roomTaken : Cache (List Char) := ⟨⟨1, 5⟩, ⟨[("b", ⟨1, ['y'], 0⟩)]⟩, 1⟩

theorem reached_roomTaken : Reached some ⟨1, 5⟩ 0 roomTaken :=
  ⟨[.get 0 "b" 1 ['y']], by decide, rfl⟩

/-- At the same reading a larger identifier takes the room. -/
theorem fresh_unless_outranked_larger :
    Reached some ⟨1, 5⟩ 0 roomTaken ∧
      roomTaken.get some 0 "c" 1 ['x'] = (⟨⟨1, 5⟩, ⟨[("c", ⟨1, ['x'], 0⟩)]⟩, 2⟩, .ok ['x']) ∧
      ¬roomTaken.Outranked 0 "c" ∧
      (roomTaken.get some 0 "c" 1 ['x']).1.versionOf? "c" = some 1 ∧
      ((roomTaken.get some 0 "c" 1 ['x']).1.get some 0 "c" 1 ['x']).1.builds = 2 := by
  have hget : roomTaken.get some 0 "c" 1 ['x']
      = (⟨⟨1, 5⟩, ⟨[("c", ⟨1, ['x'], 0⟩)]⟩, 2⟩, .ok ['x']) := rfl
  have hfree : ¬roomTaken.Outranked 0 "c" := fun h =>
    absurd (h.above _ List.mem_cons_self).2 (by decide)
  obtain ⟨hversion, hbuilds⟩ := (fresh_unless_outranked reached_roomTaken hget).1 hfree
  rw [hget]
  exact ⟨reached_roomTaken, rfl, hfree, hversion, hbuilds some 0 ['x']⟩

/-- At the same reading a smaller identifier does not get the room: the analysis that was just built
is gone, and the same lookup builds again. -/
theorem fresh_evicted_smaller :
    Reached some ⟨1, 5⟩ 0 roomTaken ∧
      (roomTaken.get some 0 "a" 1 ['x']).2 = .ok ['x'] ∧
      (roomTaken.get some 0 "a" 1 ['x']).1.versionOf? "a" = none ∧
      (roomTaken.get some 0 "a" 1 ['x']).1.builds = 2 ∧
      ((roomTaken.get some 0 "a" 1 ['x']).1.get some 0 "a" 1 ['x']).1.builds = 3 :=
  ⟨reached_roomTaken, rfl, by decide, rfl, rfl⟩

end Cache
end Server
end PipelineLang
