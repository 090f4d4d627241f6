import Mathlib.Data.List.Nodup
import Mathlib.Data.List.Perm.Subperm
import Mathlib.Data.Prod.Lex
import PipelineLang.Proofs.Server.CacheHistory

/-!
# Which entries eviction keeps

What eviction leaves is said of the entries as a set (`Kept`): all of them if they are few enough,
however old; else those that are not too old, and of these, if there are still too many, the ones
accessed last, where of two accessed at one time the larger identifier counts as the later. This
settles the entries that are kept (`Kept.perm`), so the loop that drops one entry after another keeps
the same ones in whatever order it looks through them (`kept_evict`).
-/

namespace PipelineLang

/-- Of a table without repeated names an erasure takes one entry away. -/
theorem Table.perm_cons_erase {α : Type} {t : Table α} (hnames : t.names.Nodup) {e : String × α}
    (he : e ∈ t.entries) : t.entries.Perm (e :: (t.erase e.1).entries) := by
  obtain ⟨front, back, hentries⟩ := List.append_of_mem he
  have hother : ∀ d ∈ front ++ back, (d.1 != e.1) = true := by
    rw [names, hentries, List.map_append, List.map_cons] at hnames
    intro d hd
    refine bne_iff_ne.2 fun heq => (List.nodup_middle.1 hnames).notMem ?_
    rw [← heq, ← List.map_append]
    exact List.mem_map_of_mem hd
  have herase : (t.erase e.1).entries = front ++ back := by
    rw [erase, hentries, List.filter_append, List.filter_cons_of_neg (by simp),
      ← List.filter_append, List.filter_eq_self.2 hother]
  rw [hentries, herase]
  exact List.perm_middle

namespace Server.Cache

variable {α : Type}

/-! ## The order of access -/

/-- When an entry was accessed, and its document: entries go in this order. -/
def rank (e : String × CacheEntry α) : ℕ ×ₗ String := toLex (e.2.lastAccess, e.1)

theorem goesBefore_iff {d e : String × CacheEntry α} :
    goesBefore d e = true ↔ rank d < rank e := by
  simp only [goesBefore, rank, Prod.Lex.toLex_lt_toLex, Bool.or_eq_true, Bool.and_eq_true,
    decide_eq_true_eq, beq_iff_eq]

/-- The entry that goes first is the least. -/
theorem rank_oldest?_le {entries : List (String × CacheEntry α)} {e : String × CacheEntry α}
    (h : oldest? entries = some e) : ∀ d ∈ entries, rank e ≤ rank d := by
  induction entries generalizing e with
  | nil => cases h
  | cons first rest ih =>
    rw [oldest?] at h
    split at h
    · next hnone =>
      cases h
      rw [oldest?_eq_none.1 hnone]
      exact List.forall_mem_singleton.2 le_rfl
    · next f hf =>
      split at h
      · next hbefore =>
        cases h
        exact List.forall_mem_cons.2 ⟨(goesBefore_iff.1 hbefore).le, ih hf⟩
      · next hbefore =>
        cases h
        have hle : rank first ≤ rank f := not_lt.1 (mt goesBefore_iff.2 hbefore)
        exact List.forall_mem_cons.2 ⟨le_rfl, fun d hd => hle.trans (ih hf d hd)⟩

/-! ## What is to be kept -/

/-- The entries that are not too old. -/
def recent (limits : CacheLimits) (now : Nat) (entries : List (String × CacheEntry α)) :
    List (String × CacheEntry α) :=
  entries.filter fun e => now - e.2.lastAccess ≤ limits.maxAge

/-- What is kept are the `n` entries that were accessed last. -/
structure Latest (n : Nat) (entries kept : List (String × CacheEntry α)) : Prop where
  subperm : kept.Subperm entries
  length_eq : kept.length = n
  rank_lt : ∀ d ∈ entries, d ∉ kept → ∀ e ∈ kept, rank d < rank e

/-- What is kept of entries, of which there may be too many: in that case, of those that are not
too old as many as there may be, the ones accessed last. -/
structure Kept (limits : CacheLimits) (now : Nat) (entries kept : List (String × CacheEntry α)) :
    Prop where
  few : entries.length ≤ limits.maxEntries → kept.Perm entries
  fewRecent : limits.maxEntries < entries.length →
    (recent limits now entries).length ≤ limits.maxEntries → kept.Perm (recent limits now entries)
  many : limits.maxEntries < entries.length →
    limits.maxEntries < (recent limits now entries).length →
      Latest limits.maxEntries (recent limits now entries) kept

section Unique

variable {n : Nat} {limits : CacheLimits} {now : Nat}
  {entries entries' kept kept' : List (String × CacheEntry α)}

theorem Latest.nodup (h : Latest n entries kept) (hnodup : entries.Nodup) : kept.Nodup := by
  obtain ⟨xs, hperm, hsublist⟩ := h.subperm
  exact hperm.nodup_iff.1 (hnodup.sublist hsublist)

/-- Which entries were accessed last does not hang on their order. -/
theorem Latest.perm (h : Latest n entries kept) (h' : Latest n entries' kept')
    (hentries : entries.Perm entries') (hnodup : entries.Nodup) : kept.Perm kept' := by
  have hsubset : kept ⊆ kept' := by
    intro e he
    by_contra he'
    -- as many entries are kept on the other side, so one of them is not kept on this one
    obtain ⟨d', hd', hd⟩ : ∃ d' ∈ kept', d' ∉ kept := by
      by_contra hall
      have hsubperm : kept'.Subperm kept := (h'.nodup (hentries.nodup_iff.1 hnodup)).subperm
        fun d' hd' => by_contra fun hd => hall ⟨d', hd', hd⟩
      have hperm := hsubperm.perm_of_length_le (by rw [h.length_eq, h'.length_eq])
      exact he' (hperm.mem_iff.2 he)
    have hlt := h.rank_lt d' (hentries.mem_iff.2 (h'.subperm.subset hd')) hd e he
    have hgt := h'.rank_lt e (hentries.mem_iff.1 (h.subperm.subset he)) he' d' hd'
    exact lt_asymm hlt hgt
  exact ((h.nodup hnodup).subperm hsubset).perm_of_length_le (by rw [h.length_eq, h'.length_eq])

/-- What is kept does not hang on the order of the entries. -/
theorem Kept.perm (h : Kept limits now entries kept) (h' : Kept limits now entries' kept')
    (hentries : entries.Perm entries') (hnodup : entries.Nodup) : kept.Perm kept' := by
  have hrecent : (recent limits now entries).Perm (recent limits now entries') :=
    hentries.filter _
  rcases Nat.lt_or_ge limits.maxEntries entries.length with hmany | hfew
  · have hmany' := hmany.trans_eq hentries.length_eq
    rcases Nat.lt_or_ge limits.maxEntries (recent limits now entries).length with hlarge | hsmall
    · exact (h.many hmany hlarge).perm (h'.many hmany' (hlarge.trans_eq hrecent.length_eq)) hrecent
        (hnodup.filter _)
    · exact ((h.fewRecent hmany hsmall).trans hrecent).trans
        (h'.fewRecent hmany' (hrecent.length_eq.symm.trans_le hsmall)).symm
  · exact ((h.few hfew).trans hentries).trans
      (h'.few (hentries.length_eq.symm.trans_le hfew)).symm

end Unique

/-! ## What eviction keeps -/

section Evict

variable {t : Table (CacheEntry α)}

theorem nodup_entries (hnames : t.names.Nodup) : t.entries.Nodup := List.Nodup.of_map _ hnames

/-- Dropping what goes first as often as may be keeps what was accessed last. -/
theorem latest_dropOldest (hnames : t.names.Nodup) {n : Nat} (hn : n ≤ t.size) :
    Latest (t.size - n) t.entries (dropOldest n t).entries := by
  induction n generalizing t with
  | zero => exact ⟨.refl _, rfl, fun d hd hnot => absurd hd hnot⟩
  | succ n ih =>
    rw [dropOldest]
    split
    · next hnone =>
      rw [Table.size, oldest?_eq_none.1 hnone] at hn
      cases hn
    · next id oldest hsome =>
      have hmem := mem_of_oldest? hsome
      have hperm : t.entries.Perm ((id, oldest) :: (t.erase id).entries) :=
        Table.perm_cons_erase hnames hmem
      have hsize : t.size = (t.erase id).size + 1 := hperm.length_eq
      have hrest : (t.erase id).names.Nodup := hnames.sublist (List.filter_sublist.map _)
      obtain ⟨hsubperm, hlength, hlt⟩ := ih hrest (by omega)
      have herase : (t.erase id).entries.Subperm t.entries := List.filter_sublist.subperm
      refine ⟨hsubperm.trans herase, by omega, fun d hd hnot e he => ?_⟩
      rcases List.mem_cons.1 (hperm.subset hd) with rfl | hd
      · obtain ⟨hkept, hother⟩ := Table.mem_erase.1 (hsubperm.subset he)
        refine lt_of_le_of_ne (rank_oldest?_le hsome e hkept) fun heq => hother ?_
        exact (congrArg (fun r => (ofLex r).2) heq).symm
      · exact hlt d hd hnot e he

theorem evict_of_few (limits : CacheLimits) (now : Nat) (h : t.size ≤ limits.maxEntries) :
    evict limits now t = t := if_pos h

theorem evict_of_many (limits : CacheLimits) (now : Nat) (h : limits.maxEntries < t.size) :
    evict limits now t
      = dropOldest ((recent limits now t.entries).length - limits.maxEntries)
          ⟨recent limits now t.entries⟩ := if_neg (Nat.not_le.2 h)

/-- Eviction keeps what is to be kept, in whatever order the entries stand. -/
theorem kept_evict (hnames : t.names.Nodup) (limits : CacheLimits) (now : Nat) :
    Kept limits now t.entries (evict limits now t).entries where
  few hfew := by rw [evict_of_few limits now hfew]
  fewRecent hmany hsmall := by
    rw [evict_of_many limits now hmany, Nat.sub_eq_zero_of_le hsmall, dropOldest]
  many hmany hlarge := by
    have hrecent : (Table.mk (recent limits now t.entries)).names.Nodup :=
      hnames.sublist (List.filter_sublist.map _)
    have hlatest := latest_dropOldest hrecent (Nat.sub_le _ limits.maxEntries)
    rw [evict_of_many limits now hmany]
    rwa [Table.size, Nat.sub_sub_self hlarge.le] at hlatest

end Evict

/-! ## Builds -/

/-- The entries with the one of a version that was just built. -/
def filled (c : Cache α) (id : String) (version : Int) (a : α) (now : Nat) :
    Table (CacheEntry α) := c.entries.insert id ⟨version, a, now⟩

section Builds

variable {c : Cache α} {build : List Char → Option α} {id : String} {version : Int}
  {text : List Char} {a : α}

/-- The new entry stands beside those of the other documents. -/
theorem mem_filled (hsorted : c.entries.Sorted) {now : Nat} {other : String} {e : CacheEntry α} :
    (other, e) ∈ (c.filled id version a now).entries ↔
      other = id ∧ e = ⟨version, a, now⟩ ∨ other ≠ id ∧ (other, e) ∈ c.entries.entries := by
  have hfilled : (c.filled id version a now).Sorted := hsorted.insert _ _
  rw [hfilled.mem_iff, hsorted.mem_iff, filled, Table.find?_insert]
  by_cases hid : id = other
  · simp [hid, eq_comm]
  · simp [hid, Ne.symm hid]

/-- **Eviction keeps exactly the right entries.** Let a version of a document be built that is not
cached. With the new entry in place of an old one of the document nothing else goes if there are not
too many entries, however old they are; else those go that were last accessed longer ago than they
may, and if the others are still too many, as many of them as there may be are kept, the greatest by
time of access and document. So it is in whatever order the entries are looked through. -/
theorem kept_get (hsorted : c.entries.Sorted) (hmiss : c.versionOf? id ≠ some version)
    (hbuild : build text = some a) (now : Nat) :
    (c.get build now id version text).2 = .ok a ∧
      (∀ other e, (other, e) ∈ (c.filled id version a now).entries ↔
        other = id ∧ e = ⟨version, a, now⟩ ∨ other ≠ id ∧ (other, e) ∈ c.entries.entries) ∧
      Kept c.limits now (c.filled id version a now).entries
        (c.get build now id version text).1.entries.entries ∧
      ∀ t : Table (CacheEntry α), t.entries.Perm (c.filled id version a now).entries →
        (evict c.limits now t).entries.Perm (c.get build now id version text).1.entries.entries := by
  have hget := get_of_built hmiss hbuild now
  have hnames : (c.filled id version a now).names.Nodup := (hsorted.insert _ _).nodup_names
  have hkept := kept_evict hnames c.limits now
  refine ⟨congrArg Prod.snd hget, fun _ _ => mem_filled hsorted, ?_, fun t ht => ?_⟩
  · rw [hget]
    exact hkept
  · have htnames : t.names.Nodup := (ht.map _).nodup_iff.2 hnames
    rw [hget]
    exact (kept_evict htnames c.limits now).perm hkept ht (nodup_entries htnames)

/-- A cache with room for two entries that are ten old at most, and with one more than that. -/
def crowded : Cache (List Char) :=
  ⟨⟨2, 10⟩, ⟨[("a", ⟨1, ['x'], 5⟩), ("b", ⟨1, ['y'], 5⟩), ("z", ⟨1, ['w'], 1⟩)]⟩, 3⟩

/-- The entry that is too old goes, and of two that were accessed at one time the one with the
smaller name. -/
theorem kept_get_crowded :
    (crowded.get some 12 "m" 1 ['v']).2 = .ok ['v'] ∧
      Kept ⟨2, 10⟩ 12
        [("a", ⟨1, ['x'], 5⟩), ("b", ⟨1, ['y'], 5⟩), ("m", ⟨1, ['v'], 12⟩), ("z", ⟨1, ['w'], 1⟩)]
        [("b", ⟨1, ['y'], 5⟩), ("m", ⟨1, ['v'], 12⟩)] ∧
      (evict ⟨2, 10⟩ 12 ⟨[("z", ⟨1, ['w'], 1⟩), ("m", ⟨1, ['v'], 12⟩), ("b", ⟨1, ['y'], 5⟩),
          ("a", ⟨1, ['x'], 5⟩)]⟩).entries.Perm
        [("b", ⟨1, ['y'], 5⟩), ("m", ⟨1, ['v'], 12⟩)] := by
  have hsorted : crowded.entries.Sorted := by
    rw [Table.Sorted]
    decide
  have hmiss : crowded.versionOf? "m" ≠ some 1 := by decide
  obtain ⟨hvalue, -, hkept, horder⟩ :=
    @kept_get _ crowded some "m" 1 ['v'] ['v'] hsorted hmiss rfl 12
  exact ⟨hvalue, hkept, horder _ (List.reverse_perm (crowded.filled "m" 1 ['v'] 12).entries)⟩

end Builds

end Server.Cache

end PipelineLang
