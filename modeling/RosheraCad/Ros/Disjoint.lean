import RosheraCad.Library.Tiling
import RosheraCad.Ros.Layout

/-!
# Where the chunks of a file lie

The header, the chunks and the chunk index partition a file that passes the audit: the chunks are in
order by the check of neighbours, whose unchecked additions are exact because every chunk lies below
the index, and they leave no gap because their sizes add up. The check of neighbours alone does not
decide whether the ranges are disjoint.
-/

namespace RosheraCad

def ChunkIndexEntry.span (e : ChunkIndexEntry) : Span := ⟨e.offset.toNat, e.sizeOnDisk.toNat⟩

/-- The parts of an audited file: the header, the chunks and the chunk index. -/
def RosAudited.parts (a : RosAudited) : List Span :=
  [⟨0, headerSize⟩] ++ a.chunkTable.entries.map (·.span) ++
    [⟨a.header.indexOffset.toNat, a.chunkTable.entries.length * chunkIndexEntrySize⟩]

instance : IsTrans Span fun s t ↦ s.stop ≤ t.start where
  trans _ t _ hst htu := (hst.trans (Nat.le_add_right t.start t.len)).trans htu

section

variable [Crc32] [Sha2] [Ed25519] [MessagePack SignatureChunk]

theorem Audited.tiles_chunks {a : RosAudited} (h : Audited a) :
    Span.Tiles (a.chunkTable.entries.map (·.span)) headerSize a.header.indexOffset.toNat := by
  have hperm := List.perm_insertionSort (fun e e' : ChunkIndexEntry ↦ e.offset ≤ e'.offset)
    a.chunkTable.entries
  have hsorted := (ChunkTable.validate_eq_ok.mp h.table_valid).2.2
  have hchain : ((a.chunkTable.entries.insertionSort (·.offset ≤ ·.offset)).map (·.span)).IsChain
      fun s t ↦ s.stop ≤ t.start := by
    refine (List.isChain_map _).mpr (hsorted.imp_of_mem_imp fun prev curr hprev _ hstep ↦ ?_)
    -- the end of a chunk that lies below the index does not wrap around
    have hin := (h.inside prev (hperm.mem_iff.mp hprev)).2
    have hbound := a.header.indexOffset.toNat_lt
    rw [gt_iff_lt, UInt64.lt_iff_toNat_lt, UInt64.toNat_add, not_lt,
      Nat.mod_eq_of_lt (by omega)] at hstep
    exact hstep
  refine (Span.tiles_of_pairwise (List.isChain_iff_pairwise.mp hchain) ?_ ?_).perm
    (hperm.map _)
  · intro s hs
    obtain ⟨e, he, rfl⟩ := List.mem_map.mp hs
    exact h.inside e (hperm.mem_iff.mp he)
  · rw [List.map_map, (hperm.map _).sum_eq]
    exact h.index_offset.symm

/-- **Exact tiling**: every byte of an accepted file belongs to exactly one of the header, the
chunks and the chunk index. -/
theorem auditRosBytes_tiles {buffer : Buffer} {a : RosAudited} (h : auditRosBytes buffer = .ok a) :
    Span.Tiles a.parts 0 buffer.1.length := by
  obtain ⟨rfl, haudit⟩ := auditRosBytes_eq_ok.mp h
  have hheader : headerSize ≤ a.header.indexOffset.toNat := by
    rw [haudit.index_offset]
    exact Nat.le_add_right _ _
  have hend := haudit.index_end
  have hindex := Span.Tiles.singleton
    ⟨a.header.indexOffset.toNat, a.chunkTable.entries.length * chunkIndexEntrySize⟩
  rw [hend]
  exact ((Span.Tiles.singleton ⟨0, headerSize⟩).append haudit.tiles_chunks (Nat.zero_le _)
    hheader).append hindex (Nat.zero_le _) (Nat.le_add_right _ _)

end

section

attribute [local instance] exampleCrc32 exampleSha2 exampleEd25519 exampleSignatures

/-- A file of three small chunks. -/
theorem auditRosBytes_tiles_plainFile :
    let buffer : Buffer := ⟨plainFile (.new 0 (.replicate 16 7)), by
      rw [length_plainFile]
      decide⟩
    ∃ a, auditRosBytes buffer = .ok a ∧ Span.Tiles a.parts 0 buffer.1.length := by
  intro buffer
  have hok : (auditRosBytes buffer).toBool := by decide +kernel
  rcases ha : auditRosBytes buffer with err | a
  · rw [ha] at hok
    cases hok
  · exact ⟨a, rfl, auditRosBytes_tiles ha⟩

end

/-! ## The check of neighbours -/

namespace ChunkTable

def endsComputed : List ChunkIndexEntry → List ChunkIndexEntry
  | prev :: curr :: entries =>
    prev :: if prev.offset + prev.sizeOnDisk > curr.offset then []
      else endsComputed (curr :: entries)
  | _ => []

abbrev sorted (entries : List ChunkIndexEntry) : List ChunkIndexEntry :=
  entries.insertionSort (·.offset ≤ ·.offset)

structure EntriesValid (entries : List ChunkIndexEntry) : Prop where
  required : ∀ required ∈ [ChunkType.META, .HIST, .PROV],
    ∃ e ∈ entries, e.chunkType = required.asFourcc
  valid : ∀ e ∈ entries, e.validate = .ok ()

def NoOverflow (table : ChunkTable) : Prop :=
  EntriesValid table.entries → ∀ e ∈ endsComputed (sorted table.entries), e.span.stop < 2 ^ 64

def RangesDisjoint (entries : List ChunkIndexEntry) : Prop :=
  entries.Pairwise fun e e' ↦ e.span.Disjoint e'.span

/-- In whatever order the entries stand, no addition overflows, and exactly valid entries with
disjoint ranges are accepted. -/
def JudgedByRanges (table : ChunkTable) : Prop :=
  ∀ entries, entries.Perm table.entries → NoOverflow ⟨entries⟩ ∧
    ((⟨entries⟩ : ChunkTable).validate = .ok () ↔ table.validate = .ok ()) ∧
    ((⟨entries⟩ : ChunkTable).validate = .ok () ↔ EntriesValid entries ∧ RangesDisjoint entries)

/-- No chunk reaches into another, nor does one of no bytes stand inside another. -/
def RangesClear (entries : List ChunkIndexEntry) : Prop :=
  entries.Pairwise fun e e' ↦ e.span.Clear e'.span

/-- The entries that start before `bound`, and one that starts there, fit in an order without
overlap. -/
def FitBelow (bound : ℕ) (entries : List ChunkIndexEntry) : Prop :=
  entries.Pairwise fun e e' ↦ min e.span.start e'.span.start < bound →
    max e.span.start e'.span.start ≤ bound → e.span.Fits e'.span

/-- Where a chunk reaches to `2 ^ 64` before another, those that start before it collide already. -/
def StopsBeforeOverflow (entries : List ChunkIndexEntry) : Prop :=
  ∀ e rest, entries.Perm (e :: rest) → 2 ^ 64 ≤ e.span.stop →
    (∃ e' ∈ rest, e.span.start ≤ e'.span.start) → ¬ FitBelow e.span.start entries

/-! ## Permutations -/

variable {entries entries' : List ChunkIndexEntry} {e : ChunkIndexEntry}

theorem EntriesValid.perm (h : EntriesValid entries)
    (hperm : entries'.Perm entries) : EntriesValid entries' := by
  refine ⟨fun required hmem ↦ ?_, fun e he ↦ h.valid e (hperm.mem_iff.mp he)⟩
  obtain ⟨e, he, htype⟩ := h.required required hmem
  exact ⟨e, hperm.mem_iff.mpr he, htype⟩

theorem RangesDisjoint.perm (h : RangesDisjoint entries)
    (hperm : entries'.Perm entries) : RangesDisjoint entries' :=
  (hperm.pairwise_iff fun h ↦ h.symm).mpr h

theorem RangesClear.perm (h : RangesClear entries)
    (hperm : entries'.Perm entries) : RangesClear entries' :=
  (hperm.pairwise_iff fun h ↦ h.symm).mpr h

theorem FitBelow.perm {bound : ℕ}
    (h : FitBelow bound entries) (hperm : entries'.Perm entries) : FitBelow bound entries' := by
  refine (hperm.pairwise_iff fun {e e'} hfits hmin hmax ↦ ?_).mpr h
  rw [min_comm] at hmin
  rw [max_comm] at hmax
  exact (hfits hmin hmax).symm

theorem sorted_perm (entries : List ChunkIndexEntry) : (sorted entries).Perm entries :=
  List.perm_insertionSort _ entries

instance : Std.Total fun e e' : ChunkIndexEntry ↦ e.offset ≤ e'.offset where
  total e e' := UInt64.le_total e.offset e'.offset

instance : IsTrans ChunkIndexEntry fun e e' ↦ e.offset ≤ e'.offset where
  trans _ _ _ := UInt64.le_trans

theorem pairwise_sorted (entries : List ChunkIndexEntry) :
    (sorted entries).Pairwise fun e e' ↦ e.span.start ≤ e'.span.start := by
  have hsorted := List.pairwise_insertionSort
    (fun e e' : ChunkIndexEntry ↦ e.offset ≤ e'.offset) entries
  exact hsorted.imp fun h ↦ UInt64.le_iff_toNat_le.mp h

theorem sorted_append {before after : List ChunkIndexEntry}
    (h : before.Pairwise fun e e' ↦ e.span.start ≤ e'.span.start)
    (hafter : ∀ e ∈ before, ∀ e' ∈ after, e.span.start ≤ e'.span.start) :
    sorted (before ++ after) = before ++ sorted after := by
  induction before with
  | nil => rfl
  | cons e before ih =>
    rw [List.pairwise_cons] at h
    rw [List.forall_mem_cons] at hafter
    rw [List.cons_append, List.cons_append, ← ih h.2 hafter.2]
    refine List.insertionSort_cons_of_forall_rel _ fun e' he' ↦ UInt64.le_iff_toNat_le.mpr ?_
    exact (List.mem_append.mp he').elim (h.1 e') (hafter.1 e')

/-! ## The run of the check -/

theorem not_gt_iff {prev curr : ChunkIndexEntry} (h : prev.span.stop < 2 ^ 64) :
    ¬ prev.offset + prev.sizeOnDisk > curr.offset ↔ prev.span.stop ≤ curr.span.start := by
  have hsum : prev.offset.toNat + prev.sizeOnDisk.toNat < 2 ^ 64 := h
  rw [gt_iff_lt, UInt64.lt_iff_toNat_lt, UInt64.toNat_add, not_lt, Nat.mod_eq_of_lt hsum]
  rfl

theorem validateOrder_eq_ok_of_noOverflow {entries : List ChunkIndexEntry}
    (h : ∀ e ∈ endsComputed entries, e.span.stop < 2 ^ 64) :
    validateOrder entries = .ok () ↔
      entries.IsChain fun e e' ↦ e.span.stop ≤ e'.span.start := by
  rw [validateOrder_eq_ok]
  induction entries with
  | nil => exact iff_of_true .nil .nil
  | cons prev entries ih =>
    rcases entries with - | ⟨curr, entries⟩
    · exact iff_of_true (.singleton prev) (.singleton prev)
    rw [endsComputed, List.forall_mem_cons] at h
    rw [List.isChain_cons_cons, List.isChain_cons_cons, not_gt_iff h.1]
    refine and_congr_right fun hstep ↦ ih ?_
    have hpass := (@not_gt_iff prev curr h.1).mpr hstep
    rw [if_neg hpass] at h
    exact h.2

theorem noOverflow_of_isChain {entries : List ChunkIndexEntry}
    (h : entries.IsChain fun e e' ↦ e.span.stop ≤ e'.span.start) :
    ∀ e ∈ endsComputed entries, e.span.stop < 2 ^ 64 := by
  induction entries with
  | nil => exact nofun
  | cons prev entries ih =>
    rcases entries with - | ⟨curr, entries⟩
    · exact nofun
    rw [List.isChain_cons_cons] at h
    have hbound : curr.span.start < 2 ^ 64 := curr.offset.toNat_lt
    rw [endsComputed]
    refine List.forall_mem_cons.mpr ⟨h.1.trans_lt hbound, ?_⟩
    rw [if_neg ((not_gt_iff (h.1.trans_lt hbound)).mpr h.1)]
    exact ih h.2

theorem exists_split_of_overflow {entries : List ChunkIndexEntry}
    (he : e ∈ endsComputed entries) (hstop : 2 ^ 64 ≤ e.span.stop) :
    ∃ before big after rest, entries = before ++ big :: after :: rest ∧
      2 ^ 64 ≤ big.span.stop ∧
      (before ++ [big]).IsChain fun e e' ↦ e.span.stop ≤ e'.span.start := by
  induction entries with
  | nil => cases he
  | cons prev entries ih =>
    rcases entries with - | ⟨curr, entries⟩
    · cases he
    -- the first overflow is where the run stops being that of exact arithmetic
    by_cases hprev : 2 ^ 64 ≤ prev.span.stop
    · exact ⟨[], prev, curr, entries, rfl, hprev, .singleton prev⟩
    rw [not_le] at hprev
    rw [endsComputed] at he
    rcases List.mem_cons.mp he with rfl | he
    · exact absurd hstop (not_le.mpr hprev)
    by_cases hstep : prev.offset + prev.sizeOnDisk > curr.offset
    · rw [if_pos hstep] at he
      cases he
    rw [if_neg hstep] at he
    obtain ⟨before, big, after, rest, hsplit, hbig, hchain⟩ := ih he
    refine ⟨prev :: before, big, after, rest, by rw [hsplit, List.cons_append], hbig, ?_⟩
    have hle := (not_gt_iff hprev).mp hstep
    rcases before with - | ⟨first, before⟩
    · cases hsplit
      exact .cons_cons hle hchain
    · cases hsplit
      exact .cons_cons hle hchain

theorem mem_endsComputed_append {before rest : List ChunkIndexEntry} {big after : ChunkIndexEntry}
    (h : (before ++ [big]).IsChain fun e e' ↦ e.span.stop ≤ e'.span.start) :
    big ∈ endsComputed (before ++ big :: after :: rest) := by
  induction before with
  | nil => exact List.mem_cons_self
  | cons prev before ih =>
    have hstep : ∀ curr tail, prev.span.stop ≤ curr.span.start →
        big ∈ endsComputed (curr :: tail) → big ∈ endsComputed (prev :: curr :: tail) := by
      intro curr tail hle hmem
      have hbound : curr.span.start < 2 ^ 64 := curr.offset.toNat_lt
      rw [endsComputed, if_neg ((not_gt_iff (hle.trans_lt hbound)).mpr hle)]
      exact List.mem_cons_of_mem _ hmem
    rcases before with - | ⟨curr, before⟩
    · rw [List.cons_append, List.nil_append, List.isChain_cons_cons] at h
      exact hstep big _ h.1 List.mem_cons_self
    · rw [List.cons_append, List.cons_append, List.isChain_cons_cons] at h
      exact hstep curr _ h.1 (ih h.2)

theorem isChain_iff_pairwise {entries : List ChunkIndexEntry} :
    (entries.IsChain fun e e' ↦ e.span.stop ≤ e'.span.start) ↔
      entries.Pairwise fun e e' ↦ e.span.stop ≤ e'.span.start := by
  let : IsTrans ChunkIndexEntry fun e e' ↦ e.span.stop ≤ e'.span.start :=
    ⟨fun _ e _ h h' ↦ (h.trans (Nat.le_add_right _ _)).trans h'⟩
  exact List.isChain_iff_pairwise

/-! ## The verdict -/

theorem validate_eq_ok_iff {entries : List ChunkIndexEntry} :
    (⟨entries⟩ : ChunkTable).validate = .ok () ↔
      EntriesValid entries ∧ validateOrder (sorted entries) = .ok () := by
  have hfind : ∀ required, ((⟨entries⟩ : ChunkTable).findByType required).isSome ↔
      ∃ e ∈ entries, e.chunkType = required.asFourcc := by
    intro required
    rw [findByType, List.find?_isSome]
    simp only [decide_eq_true_eq]
  rw [validate_eq_ok, validateOrder_eq_ok]
  constructor
  · rintro ⟨hrequired, hvalid, hchain⟩
    exact ⟨⟨fun required hmem ↦ (hfind required).mp (hrequired required hmem), hvalid⟩, hchain⟩
  · rintro ⟨⟨hrequired, hvalid⟩, hchain⟩
    exact ⟨fun required hmem ↦ (hfind required).mpr (hrequired required hmem), hvalid, hchain⟩

theorem validate_eq_ok_iff_pairwise {entries : List ChunkIndexEntry}
    (h : NoOverflow ⟨entries⟩) : (⟨entries⟩ : ChunkTable).validate = .ok () ↔
      EntriesValid entries ∧
        (sorted entries).Pairwise fun e e' ↦ e.span.stop ≤ e'.span.start := by
  rw [validate_eq_ok_iff]
  refine and_congr_right fun hvalid ↦ ?_
  rw [validateOrder_eq_ok_of_noOverflow (h hvalid), isChain_iff_pairwise]

theorem rangesDisjoint_of_pairwise {entries : List ChunkIndexEntry}
    (h : (sorted entries).Pairwise fun e e' ↦ e.span.stop ≤ e'.span.start) :
    RangesDisjoint entries :=
  RangesDisjoint.perm (h.imp Span.disjoint_of_stop_le) (sorted_perm entries).symm

theorem pairwise_sorted_of_rangesClear {entries : List ChunkIndexEntry} (h : RangesClear entries) :
    (sorted entries).Pairwise fun e e' ↦ e.span.stop ≤ e'.span.start :=
  ((pairwise_sorted entries).and (h.perm (sorted_perm entries))).imp fun h ↦ h.2.1 h.1

theorem exists_ordered_of_fitBelow {limit : ℕ} {entries : List ChunkIndexEntry}
    (hbelow : ∀ e ∈ entries, e.span.start < limit) (hfit : FitBelow limit entries) :
    ∃ ordered : List ChunkIndexEntry, ordered.Perm entries ∧
      ordered.Pairwise fun e e' ↦ e.span.stop ≤ e'.span.start := by
  let key : ChunkIndexEntry → ℕ := fun e ↦ e.span.start + e.span.stop
  let : Std.Total fun e e' : ChunkIndexEntry ↦ key e ≤ key e' :=
    ⟨fun e e' ↦ Nat.le_total (key e) (key e')⟩
  let : IsTrans ChunkIndexEntry fun e e' ↦ key e ≤ key e' := ⟨fun _ _ _ ↦ Nat.le_trans⟩
  let ordered := entries.insertionSort fun e e' ↦ key e ≤ key e'
  have hperm : ordered.Perm entries := List.perm_insertionSort _ _
  have hkey : ordered.Pairwise fun e e' ↦ key e ≤ key e' := List.pairwise_insertionSort _ _
  refine ⟨ordered, hperm, (hkey.and (hfit.perm hperm)).imp_of_mem fun {e e'} he he' h ↦ ?_⟩
  have hlt := hbelow e (hperm.mem_iff.mp he)
  have hlt' := hbelow e' (hperm.mem_iff.mp he')
  exact (h.2 (min_lt_of_left_lt hlt) (max_le hlt.le hlt'.le)).stop_le h.1

theorem sorted_append_cons {before others : List ChunkIndexEntry}
    (hpairs : before.Pairwise fun e₁ e₂ ↦ e₁.span.start ≤ e₂.span.start)
    (hbefore : ∀ e' ∈ before, e'.span.start ≤ e.span.start)
    (hothers : ∀ e' ∈ others, e.span.start ≤ e'.span.start) :
    sorted (before ++ e :: others) = before ++ e :: sorted others := by
  have hthis : sorted (e :: others) = e :: sorted others :=
    @sorted_append [e] others (List.pairwise_singleton _ _) fun e₁ h₁ ↦ by
      rw [List.mem_singleton.mp h₁]
      exact hothers
  rw [sorted_append hpairs, hthis]
  intro e₁ h₁ e₂ h₂
  rcases List.mem_cons.mp h₂ with rfl | h₂
  · exact hbefore e₁ h₁
  · exact (hbefore e₁ h₁).trans (hothers e₂ h₂)

/-- The check gets to an overflow in the worst order: what starts before the chunk, the chunk, the
others. -/
theorem exists_overflow_of_fitBelow {rest : List ChunkIndexEntry}
    (hafter : ∃ e' ∈ rest, e.span.start ≤ e'.span.start)
    (hfit : FitBelow e.span.start (e :: rest)) :
    ∃ entries, entries.Perm (e :: rest) ∧ e ∈ endsComputed (sorted entries) := by
  rw [FitBelow, List.pairwise_cons] at hfit
  let p : ChunkIndexEntry → Bool := fun e' ↦ decide (e'.span.start < e.span.start)
  let others := rest.filter fun e' ↦ !p e'
  have hothers : ∀ e', e' ∈ others ↔ e' ∈ rest ∧ e.span.start ≤ e'.span.start := by
    intro e'
    rw [List.mem_filter, Bool.not_eq_true', decide_eq_false_iff_not, not_lt]
  obtain ⟨before, hbefore, hpairs⟩ := @exists_ordered_of_fitBelow e.span.start (rest.filter p)
    (fun e' he' ↦ of_decide_eq_true (List.mem_filter.mp he').2)
    (hfit.2.sublist List.filter_sublist)
  have hmem : ∀ e' ∈ before, e' ∈ rest ∧ e'.span.start < e.span.start := by
    intro e' he'
    have hfilter := List.mem_filter.mp (hbefore.mem_iff.mp he')
    exact ⟨hfilter.1, of_decide_eq_true hfilter.2⟩
  have hlast : ∀ e' ∈ before, e'.span.stop ≤ e.span.start := by
    intro e' he'
    obtain ⟨hrest, hlt⟩ := hmem e' he'
    exact (hfit.1 e' hrest (min_lt_of_right_lt hlt) (max_le le_rfl hlt.le)).2.1 hlt
  have hsorted : sorted (before ++ e :: others) = before ++ e :: sorted others :=
    sorted_append_cons (hpairs.imp fun h ↦ (Nat.le_add_right _ _).trans h)
      (fun e' he' ↦ (hmem e' he').2.le) fun e' he' ↦ ((hothers e').mp he').2
  refine ⟨before ++ e :: others, ?_, ?_⟩
  · exact List.perm_middle.trans
      (((hbefore.append_right _).trans (List.filter_append_perm p rest)).cons e)
  · have hchain : (before ++ [e]).IsChain fun e₁ e₂ ↦ e₁.span.stop ≤ e₂.span.start := by
      rw [isChain_iff_pairwise, List.pairwise_append]
      refine ⟨hpairs, List.pairwise_singleton _ _, fun e₁ h₁ e₂ h₂ ↦ ?_⟩
      rw [List.mem_singleton.mp h₂]
      exact hlast e₁ h₁
    obtain ⟨e', hrest, hle⟩ := hafter
    have he' : e' ∈ sorted others :=
      (sorted_perm others).mem_iff.mpr ((hothers e').mpr ⟨hrest, hle⟩)
    rw [hsorted]
    rcases hothers' : sorted others with - | ⟨after, tail⟩
    · rw [hothers'] at he'
      cases he'
    · exact mem_endsComputed_append hchain

/-- Disjoint ranges accepted in every order are clear of each other: the sort keeps chunks of one
offset in order. -/
theorem JudgedByRanges.rangesClear {entries : List ChunkIndexEntry}
    (h : JudgedByRanges ⟨entries⟩) (hvalid : EntriesValid entries)
    (hdisjoint : RangesDisjoint entries) : RangesClear entries := by
  have hfirst : ∀ e e' rest, (e :: e' :: rest).Perm entries → e.span.start ≤ e'.span.start →
      e.span.stop ≤ e'.span.start := by
    intro e e' rest hperm hle
    obtain ⟨hno, -, haccepts⟩ := h _ hperm
    have haccepted := haccepts.mpr ⟨hvalid.perm hperm, hdisjoint.perm hperm⟩
    have hpairs := ((validate_eq_ok_iff_pairwise hno).mp haccepted).2
    have hsub : [e, e'].Sublist (sorted (e :: e' :: rest)) :=
      List.pair_sublist_insertionSort (UInt64.le_iff_toNat_le.mpr hle)
        (List.sublist_append_left [e, e'] rest)
    exact List.pairwise_iff_forall_sublist.mp hpairs hsub
  refine List.pairwise_iff_forall_sublist.mpr fun {e e'} hsub ↦ ?_
  obtain ⟨rest, hperm⟩ := hsub.exists_perm_append
  exact ⟨hfirst e e' rest hperm.symm,
    hfirst e' e rest ((List.Perm.swap e e' rest).trans hperm.symm)⟩

theorem noOverflow_of_stopsBeforeOverflow {entries : List ChunkIndexEntry}
    (h : StopsBeforeOverflow entries) : NoOverflow ⟨entries⟩ := by
  intro _ e he
  by_contra hstop
  obtain ⟨before, big, after, rest, hsplit, hbig, hchain⟩ :=
    exists_split_of_overflow he (not_lt.mp hstop)
  have hperm : (sorted entries).Perm entries := sorted_perm entries
  have hstarts := pairwise_sorted entries
  simp only at hsplit
  rw [hsplit] at hperm hstarts
  rw [isChain_iff_pairwise, List.pairwise_append] at hchain
  have hlater := List.pairwise_append.mp hstarts |>.2.1
  rw [List.pairwise_cons] at hlater
  refine h big (before ++ after :: rest) (hperm.symm.trans List.perm_middle) hbig
    ⟨after, List.mem_append_right _ List.mem_cons_self, hlater.1 after List.mem_cons_self⟩
    (FitBelow.perm ?_ hperm.symm)
  have hfrom : ∀ e' ∈ big :: after :: rest, big.span.start ≤ e'.span.start :=
    List.forall_mem_cons.mpr ⟨le_rfl, hlater.1⟩
  refine List.pairwise_append.mpr ⟨?_, ?_, fun e₁ h₁ e₂ h₂ _ _ ↦ ?_⟩
  · exact hchain.1.imp fun hle _ _ ↦ Span.fits_of_stop_le hle
  · -- of two entries that start no earlier than the overflow, none starts below it
    refine List.pairwise_of_forall_mem_list fun e₁ h₁ e₂ h₂ hmin ↦ ?_
    exact absurd hmin (not_lt.mpr (le_min (hfrom e₁ h₁) (hfrom e₂ h₂)))
  · have hle := hchain.2.2 e₁ h₁ big List.mem_cons_self
    exact Span.fits_of_stop_le (hle.trans (hfrom e₂ h₂))

/-- **When validation judges the entries by their ranges**: they are invalid anyway, or their ranges
are clear of each other, or they collide before the check would add past `2 ^ 64`. -/
theorem judgedByRanges_iff {table : ChunkTable} : table.JudgedByRanges ↔
    ¬ EntriesValid table.entries ∨ RangesClear table.entries ∨
      ¬ RangesDisjoint table.entries ∧ StopsBeforeOverflow table.entries := by
  obtain ⟨entries⟩ := table
  constructor
  · intro h
    rw [or_iff_not_imp_left, not_not]
    intro hvalid
    by_cases hdisjoint : RangesDisjoint entries
    · exact .inl (h.rangesClear hvalid hdisjoint)
    · refine .inr ⟨hdisjoint, fun e rest hperm hlast hafter hfit ↦ ?_⟩
      obtain ⟨entries', hperm', hend⟩ := exists_overflow_of_fitBelow hafter (hfit.perm hperm.symm)
      have hperm' := hperm'.trans hperm.symm
      exact absurd ((h entries' hperm').1 (hvalid.perm hperm') e hend) (not_lt.mpr hlast)
  · intro h
    have hall : ∀ entries' : List ChunkIndexEntry, entries'.Perm entries → NoOverflow ⟨entries'⟩ ∧
        ((⟨entries'⟩ : ChunkTable).validate = .ok () ↔
          EntriesValid entries' ∧ RangesDisjoint entries') := by
      intro entries' hperm
      rcases h with hinvalid | hclear | ⟨hoverlap, hstops⟩
      · have hinvalid' : ¬ EntriesValid entries' := fun h ↦ hinvalid (h.perm hperm.symm)
        exact ⟨fun h ↦ absurd h hinvalid',
          iff_of_false (fun h ↦ hinvalid' (validate_eq_ok_iff.mp h).1) fun h ↦ hinvalid' h.1⟩
      · have hpairs := pairwise_sorted_of_rangesClear (hclear.perm hperm)
        have hno : NoOverflow ⟨entries'⟩ :=
          fun _ ↦ noOverflow_of_isChain (isChain_iff_pairwise.mpr hpairs)
        refine ⟨hno, ?_⟩
        rw [validate_eq_ok_iff_pairwise hno]
        exact and_congr_right fun _ ↦ iff_of_true hpairs (rangesDisjoint_of_pairwise hpairs)
      · have hno : NoOverflow ⟨entries'⟩ := noOverflow_of_stopsBeforeOverflow
          fun e rest hperm' hlast hafter hfit ↦
            hstops e rest (hperm.symm.trans hperm') hlast hafter (hfit.perm hperm.symm)
        have hoverlap' : ¬ RangesDisjoint entries' := fun h ↦ hoverlap (h.perm hperm.symm)
        refine ⟨hno, ?_⟩
        rw [validate_eq_ok_iff_pairwise hno]
        exact iff_of_false (fun h ↦ hoverlap' (rangesDisjoint_of_pairwise h.2))
          fun h ↦ hoverlap' h.2
    intro entries' hperm
    obtain ⟨hno, haccepts⟩ := hall entries' hperm
    refine ⟨hno, ?_, haccepts⟩
    rw [haccepts, (hall entries (.refl entries)).2]
    exact ⟨fun h ↦ ⟨h.1.perm hperm.symm, h.2.perm hperm.symm⟩,
      fun h ↦ ⟨h.1.perm hperm, h.2.perm hperm⟩⟩

def entryAt (chunkType : ChunkType) (offset compressedSize : UInt64) : ChunkIndexEntry :=
  { ChunkIndexEntry.new chunkType.asFourcc with offset, compressedSize }

/-- The end of the first chunk wraps around to byte 50, before the two chunks it covers. -/
theorem not_judgedByRanges_of_wrap :
    let table : ChunkTable := ⟨[entryAt .META 100 0xffffffffffffffce, entryAt .HIST 200 10,
      entryAt .PROV 300 10]⟩
    table.validate = .ok () ∧ ¬ RangesDisjoint table.entries ∧ ¬ table.JudgedByRanges := by
  intro table
  have hvalid : table.validate = .ok () := by decide +kernel
  have hoverlap : ¬ RangesDisjoint table.entries := by
    intro h
    have hfirst := (List.pairwise_cons.mp h).1 (entryAt .HIST 200 10) List.mem_cons_self 200
    exact hfirst (by decide)
  exact ⟨hvalid, hoverlap, fun h ↦ hoverlap ((h table.entries (.refl _)).2.2.mp hvalid).2⟩

/-- A chunk of no bytes at the start of another: the order of the index decides. -/
example :
    (⟨[entryAt .HIST 128 0, entryAt .META 128 10, entryAt .PROV 200 10]⟩ : ChunkTable).validate =
        .ok () ∧
      (⟨[entryAt .META 128 10, entryAt .HIST 128 0, entryAt .PROV 200 10]⟩ : ChunkTable).validate ≠
        .ok () := by
  decide +kernel

end ChunkTable

end RosheraCad
