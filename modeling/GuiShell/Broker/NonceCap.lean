-- The cap on the replay nonces of the store. The oldest nonces are dropped first, so a nonce
-- that is recorded at an earlier time than all the others is dropped as it is recorded.
import GuiShell.Broker.Directory
import Mathlib.Data.List.Dedup

open files json_lines

namespace store

variable {now clock : I64} {records : List ReplayNonceRecord}

/-! ## The order of dropping -/

/-- Of two nonces the one that is dropped first: by time, and by nonce at one time. -/
def Before (left right : String × I64) : Prop :=
  left.2 < right.2 ∨ left.2 = right.2 ∧ left.1 < right.1

instance : DecidableRel Before := fun left right =>
  inferInstanceAs (Decidable (left.2 < right.2 ∨ left.2 = right.2 ∧ left.1 < right.1))

theorem Before.asymm {a b : String × I64} (h : Before a b) : ¬ Before b a := by
  unfold Before at *
  rw [I64.lt_def] at *
  rintro (hlt | ⟨heq, hlt⟩)
  · rcases h with h | ⟨h, -⟩
    · omega
    · rw [h] at hlt
      omega
  · rcases h with h | ⟨-, h⟩
    · rw [heq] at h
      omega
    · exact lt_asymm h hlt

theorem Before.trans {a b c : String × I64} (hab : Before a b) (hbc : Before b c) :
    Before a c := by
  unfold Before at *
  rw [I64.lt_def] at *
  rcases hab with hab | ⟨hab, hnonce⟩
  · rcases hbc with hbc | ⟨hbc, -⟩
    · exact .inl (by omega)
    · exact .inl (hbc ▸ hab)
  · rw [hab]
    rcases hbc with hbc | ⟨hbc, hnonce'⟩
    · exact .inl hbc
    · exact .inr ⟨hbc, lt_trans hnonce hnonce'⟩

theorem Before.le {a b : String × I64} (h : Before a b) : a.2 ≤ b.2 := by
  rw [I64.le_def]
  rcases h with h | ⟨h, -⟩
  · exact le_of_lt h
  · rw [h]

theorem oldest_key_before {l : List (String × I64)} (hl : sorted_map.Sorted l)
    {oldest : String × I64} (h : oldest_key l = some oldest) :
    ∀ e ∈ l, e ≠ oldest → Before oldest e := by
  induction l generalizing oldest with
  | nil => cases h
  | cons e' l ih =>
    obtain ⟨hkey, hl⟩ := sorted_map.sorted_cons.mp hl
    rw [oldest_key] at h
    intro e he hne
    split at h
    · rename_i hnone
      cases h
      rw [oldest_key_eq_none hnone, List.mem_singleton] at he
      exact absurd he hne
    · rename_i e'' hrest
      split at h
      · rename_i hle
        cases h
        rcases List.mem_cons.mp he with rfl | he
        · exact absurd rfl hne
        -- Of two nonces at one time the first by key is dropped.
        have hfirst : Before e' e'' := by
          rcases lt_or_eq_of_le (I64.le_def.mp hle) with hlt | heq
          · exact .inl hlt
          · exact .inr ⟨I64.ext heq, hkey e'' (oldest_key_mem hrest)⟩
        by_cases hsame : e = e''
        · exact hsame ▸ hfirst
        · exact hfirst.trans (ih hl hrest e he hsame)
      · rename_i hlt
        cases h
        rcases List.mem_cons.mp he with rfl | he
        · rw [I64.le_def] at hlt
          exact .inl (not_le.mp hlt)
        · exact ih hl hrest e he hne

/-! ## What is dropped -/

/-- No more than what is too many is dropped. -/
theorem dropOldest_full {fuel : Nat} {nonces : SortedMap String I64}
    (hfuel : nonces.len ≤ MAX_REPLAY_NONCE_RECORDS + fuel)
    (hfull : MAX_REPLAY_NONCE_RECORDS ≤ nonces.len) :
    (dropOldest fuel nonces).len = MAX_REPLAY_NONCE_RECORDS := by
  induction fuel generalizing nonces with
  | zero => exact le_antisymm hfuel hfull
  | succ fuel ih =>
    rw [dropOldest]
    split
    · rename_i hmany
      split
      · rename_i oldest ho
        have hlen := SortedMap.len_remove (oldest_key_mem ho)
        apply ih
        · omega
        · omega
      · rename_i ho
        rw [SortedMap.len, oldest_key_eq_none ho] at hmany
        cases hmany
    · rename_i hmany
      exact le_antisymm (not_lt.mp hmany) hfull

/-- A nonce is dropped only from a full map, and what stays comes after it. -/
theorem dropOldest_dropped {fuel : Nat} {nonces : SortedMap String I64}
    (hfuel : nonces.len ≤ MAX_REPLAY_NONCE_RECORDS + fuel) {e : String × I64}
    (he : e ∈ nonces.entries) (hdropped : e ∉ (dropOldest fuel nonces).entries) :
    (dropOldest fuel nonces).len = MAX_REPLAY_NONCE_RECORDS ∧
      ∀ kept ∈ (dropOldest fuel nonces).entries, Before e kept := by
  induction fuel generalizing nonces with
  | zero => exact absurd he hdropped
  | succ fuel ih =>
    rw [dropOldest] at hdropped ⊢
    split at hdropped
    · rename_i hmany
      rw [if_pos hmany]
      split at hdropped
      · rename_i oldest ho
        have hlen := SortedMap.len_remove (oldest_key_mem ho)
        by_cases hkey : oldest.1 = e.1
        · -- The entry is the oldest one.
          have hoe : oldest = e := by
            have hget := (nonces.get_eq_some_iff e.1 e.2).mpr he
            have hget' := (nonces.get_eq_some_iff oldest.1 oldest.2).mpr (oldest_key_mem ho)
            rw [hkey, hget] at hget'
            exact Prod.ext hkey (Option.some.inj hget').symm
          subst hoe
          refine ⟨dropOldest_full (by omega) (by omega), fun kept hkept => ?_⟩
          have hrest := dropOldest_subset _ _ hkept
          apply oldest_key_before nonces.sorted ho kept (nonces.entries_remove_subset _ hrest)
          rintro rfl
          exact hdropped hkept
        · exact ih (by omega) (SortedMap.mem_entries_remove he hkey) hdropped
      · exact absurd he hdropped
    · exact absurd he hdropped

theorem loadedNonces_dropped {e : String × I64} (he : e ∈ (keptNonces now records).entries)
    (hdropped : e ∉ (loadedNonces now records).entries) :
    (loadedNonces now records).len = MAX_REPLAY_NONCE_RECORDS ∧
      ∀ kept ∈ (loadedNonces now records).entries, Before e kept :=
  dropOldest_dropped (Nat.le_add_left _ _) he hdropped

/-- A nonce stays when less than the cap comes after it. -/
theorem mem_loadedNonces_iff {e : String × I64} (he : e ∈ (keptNonces now records).entries) :
    e ∈ (loadedNonces now records).entries ↔
      ((keptNonces now records).entries.filter fun kept => Before e kept).length <
        MAX_REPLAY_NONCE_RECORDS := by
  have hnodup : (keptNonces now records).entries.Nodup := (keptNonces now records).sorted.nodup.of_map
  constructor
  · intro hmem
    -- All that comes after it stays too, beside it.
    have hsubset : e :: (keptNonces now records).entries.filter (fun kept => Before e kept) ⊆
        (loadedNonces now records).entries := by
      intro x hx
      rcases List.mem_cons.mp hx with rfl | hx
      · exact hmem
      · obtain ⟨hx, hafter⟩ := List.mem_filter.mp hx
        by_contra hdropped
        have hbefore := (loadedNonces_dropped hx hdropped).2 e hmem
        exact hbefore.asymm (of_decide_eq_true hafter)
    have hself : e ∉ (keptNonces now records).entries.filter (fun kept => Before e kept) := by
      intro hx
      have hbefore : Before e e := of_decide_eq_true (List.mem_filter.mp hx).2
      exact hbefore.asymm hbefore
    have hlen := (List.subperm_of_subset (List.nodup_cons.mpr ⟨hself, hnodup.filter _⟩)
      hsubset).length_le
    rw [List.length_cons] at hlen
    exact lt_of_lt_of_le hlen (loadedNonces_len now records)
  · intro hlt
    by_contra hdropped
    obtain ⟨hfull, hafter⟩ := loadedNonces_dropped he hdropped
    have hsubset : (loadedNonces now records).entries ⊆
        (keptNonces now records).entries.filter fun kept => Before e kept := by
      intro x hx
      exact List.mem_filter.mpr ⟨dropOldest_subset _ _ hx, decide_eq_true (hafter x hx)⟩
    have hlen := (List.subperm_of_subset (loadedNonces now records).sorted.nodup.of_map
      hsubset).length_le
    rw [← SortedMap.len, hfull] at hlen
    exact absurd hlt (not_lt.mpr hlen)

/-! ## The last record of a nonce -/

/-- The time of the last record of a nonce that is retained. -/
def lastRetained (now : I64) (records : List ReplayNonceRecord) (nonce : String) : Option I64 :=
  ((records.filter fun record => record.nonce = nonce &&
    nonce_is_retained (record.recorded_at_epoch_seconds.getD now) now).getLast?).map
      fun record => record.recorded_at_epoch_seconds.getD now

theorem lastRetained_snoc (record : ReplayNonceRecord) (nonce : String) :
    lastRetained now (records ++ [record]) nonce =
      if record.nonce = nonce ∧
          nonce_is_retained (record.recorded_at_epoch_seconds.getD now) now = true
      then some (record.recorded_at_epoch_seconds.getD now) else lastRetained now records nonce := by
  unfold lastRetained
  rw [List.filter_append]
  by_cases h : record.nonce = nonce ∧
      nonce_is_retained (record.recorded_at_epoch_seconds.getD now) now = true
  · rw [if_pos h, List.filter_cons_of_pos (by simp [h.1, h.2]), List.filter_nil,
      List.getLast?_append]
    rfl
  · rw [if_neg h, List.filter_cons_of_neg (by simpa using h), List.filter_nil, List.append_nil]

theorem keptNonces_get (nonce : String) :
    (keptNonces now records).get nonce = lastRetained now records nonce := by
  induction records using List.reverseRecOn with
  | nil => rfl
  | append_singleton records record ih =>
    rw [lastRetained_snoc, ← ih, keptNonces, List.foldl_append, List.foldl_cons, List.foldl_nil,
      ← keptNonces, keep]
    by_cases hret : nonce_is_retained (record.recorded_at_epoch_seconds.getD now) now = true
    · rw [if_pos hret, SortedMap.get_insert]
      simp only [hret, and_true]
    · rw [if_neg hret, if_neg fun h => hret h.2]

theorem lastRetained_mem {nonce : String} {seconds : I64}
    (h : lastRetained now records nonce = some seconds) :
    nonce ∈ records.map ReplayNonceRecord.nonce := by
  rw [lastRetained, Option.map_eq_some_iff] at h
  obtain ⟨record, hlast, -⟩ := h
  obtain ⟨hrecord, hkeep⟩ := List.mem_filter.mp (List.mem_of_getLast? hlast)
  rw [Bool.and_eq_true, decide_eq_true_iff] at hkeep
  exact List.mem_map.mpr ⟨record, hrecord, hkeep.1⟩

/-- The nonces are those of the newest records that are retained: one record for each nonce,
and no nonce is left out but for as many that are as new. -/
structure Newest (now : I64) (records : List ReplayNonceRecord) (nonces : SortedMap String I64) :
    Prop where
  last : ∀ nonce seconds, nonces.get nonce = some seconds →
    lastRetained now records nonce = some seconds
  newest : ∀ nonce seconds, lastRetained now records nonce = some seconds →
    nonces.get nonce = none →
      nonces.len = MAX_REPLAY_NONCE_RECORDS ∧ ∀ e ∈ nonces.entries, seconds ≤ e.2

theorem loadedNonces_newest (now : I64) (records : List ReplayNonceRecord) :
    Newest now records (loadedNonces now records) := by
  refine ⟨fun nonce seconds h => ?_, fun nonce seconds h hnone => ?_⟩
  · rw [SortedMap.get_eq_some_iff] at h
    rw [← keptNonces_get, SortedMap.get_eq_some_iff]
    exact dropOldest_subset _ _ h
  · rw [← keptNonces_get, SortedMap.get_eq_some_iff] at h
    have hdropped : (nonce, seconds) ∉ (loadedNonces now records).entries := by
      rw [← SortedMap.get_eq_some_iff, hnone]
      exact (Option.some_ne_none seconds).symm
    obtain ⟨hfull, hafter⟩ := loadedNonces_dropped h hdropped
    exact ⟨hfull, fun e he => (hafter e he).le⟩

/-! ## The nonce that is recorded -/

theorem nonce_is_retained_now (clock : I64) : nonce_is_retained clock clock = true := by
  rw [nonce_is_retained_iff, Int.sub_self]
  decide

theorem keptNonces_get_recorded (nonce other : String) :
    (keptNonces clock (records ++ [⟨nonce, some clock⟩])).get other =
      if nonce = other then some clock else lastRetained clock records other := by
  rw [keptNonces_get, lastRetained_snoc]
  simp [nonce_is_retained_now]

/-- The other nonces of some records that would be dropped after a nonce that is recorded now. -/
def laterNonces (clock : I64) (records : List ReplayNonceRecord) (nonce : String) : List String :=
  (records.map ReplayNonceRecord.nonce).dedup.filter fun other =>
    other ≠ nonce &&
      (lastRetained clock records other).any fun seconds => Before (nonce, clock) (other, seconds)

theorem mem_laterNonces {nonce other : String} : other ∈ laterNonces clock records nonce ↔
    other ≠ nonce ∧ ∃ seconds, lastRetained clock records other = some seconds ∧
      Before (nonce, clock) (other, seconds) := by
  rw [laterNonces, List.mem_filter, List.mem_dedup, Bool.and_eq_true, decide_eq_true_iff,
    Option.any_eq_true]
  constructor
  · rintro ⟨_, hne, seconds, hlast, hlater⟩
    exact ⟨hne, seconds, hlast, of_decide_eq_true hlater⟩
  · rintro ⟨hne, seconds, hlast, hlater⟩
    exact ⟨lastRetained_mem hlast, hne, seconds, hlast, decide_eq_true hlater⟩

theorem perm_laterNonces (nonce : String) :
    (((keptNonces clock (records ++ [⟨nonce, some clock⟩])).entries.filter fun kept =>
      Before (nonce, clock) kept).map Prod.fst).Perm (laterNonces clock records nonce) := by
  rw [List.perm_ext_iff_of_nodup]
  · intro other
    rw [mem_laterNonces, List.mem_map]
    constructor
    · rintro ⟨⟨other, seconds⟩, he, rfl⟩
      obtain ⟨he, hlater⟩ := List.mem_filter.mp he
      have hbefore : Before (nonce, clock) (other, seconds) := of_decide_eq_true hlater
      rw [← SortedMap.get_eq_some_iff, keptNonces_get_recorded] at he
      by_cases hself : nonce = other
      · rw [if_pos hself, Option.some.injEq] at he
        rw [← hself, ← he] at hbefore
        exact absurd hbefore hbefore.asymm
      · rw [if_neg hself] at he
        exact ⟨Ne.symm hself, seconds, he, hbefore⟩
    · rintro ⟨hne, seconds, hlast, hlater⟩
      refine ⟨(other, seconds), List.mem_filter.mpr ⟨?_, decide_eq_true hlater⟩, rfl⟩
      rw [← SortedMap.get_eq_some_iff, keptNonces_get_recorded, if_neg (Ne.symm hne), hlast]
  · exact ((SortedMap.sorted _).filter _).nodup
  · exact (List.nodup_dedup _).filter _

/-- The recorded nonce stays when less than the cap would be dropped after it. -/
theorem loadedNonces_contains_iff (nonce : String) :
    (loadedNonces clock (records ++ [⟨nonce, some clock⟩])).contains_key nonce = true ↔
      (laterNonces clock records nonce).length < MAX_REPLAY_NONCE_RECORDS := by
  have hkept : (nonce, clock) ∈ (keptNonces clock (records ++ [⟨nonce, some clock⟩])).entries := by
    rw [← SortedMap.get_eq_some_iff, keptNonces_get_recorded, if_pos rfl]
  rw [← (perm_laterNonces nonce).length_eq, List.length_map, ← mem_loadedNonces_iff hkept,
    ← SortedMap.get_eq_some_iff, SortedMap.contains_key, Option.isSome_iff_exists]
  constructor
  · rintro ⟨seconds, hget⟩
    have hlast := (loadedNonces_newest _ _).last nonce seconds hget
    rw [← keptNonces_get, keptNonces_get_recorded, if_pos rfl] at hlast
    rw [hget, hlast]
  · intro hget
    exact ⟨clock, hget⟩

/-! ## The replay file -/

theorem nonceCodec_bracketed : nonceCodec.Bracketed := by
  intro v record h
  change decodeNonce v = some record at h
  cases v with
  | object fields => exact .inl ⟨fields, rfl⟩
  | array items => exact .inr ⟨items, rfl⟩
  | _ => cases h

/-- The records of the replay file. -/
def replayRecords (disk : Disk StoreFile) : List ReplayNonceRecord :=
  nonceCodec.recordsOf (lines ((disk .replay).getD (.text [])))

/-- A replay file that loads holds records that are not blank, and gives their nonces. -/
theorem replayNoncesOf_ok {crates : Crates} {content : Content} {nonces : SortedMap String I64}
    (h : replayNoncesOf crates content now = .ok nonces) :
    (∀ line ∈ lines content, nonceCodec.Readable line) ∧
      (∀ record ∈ nonceCodec.recordsOf (lines content), ¬ IsBlank record.nonce) ∧
      nonces = loadedNonces now (nonceCodec.recordsOf (lines content)) := by
  unfold replayNoncesOf at h
  simp only [bind, Except.bind] at h
  split at h
  · cases h
  · rename_i kept hfold
    cases h
    have hstep : ∀ number acc record acc', keepNonce now number acc record = .ok acc' →
        ¬ IsBlank record.nonce ∧ acc' = keep now acc record := by
      intro number acc record acc' hkeep
      by_cases hblank : IsBlank record.nonce
      · rw [keepNonce, if_pos (by exact hblank)] at hkeep
        cases hkeep
      · rw [keepNonce_eq number acc hblank] at hkeep
        cases hkeep
        exact ⟨hblank, rfl⟩
    obtain ⟨hread, hblank, hkept⟩ := foldLines_ok nonceCodec hstep hfold
    refine ⟨hread, hblank, ?_⟩
    rw [hkept]
    rfl

/-- What a recording that succeeds reads and leaves. -/
theorem append_replay_nonce.run (crates : Crates) (faults : Faults StoreFile)
    (disk : Disk StoreFile) (nonce : String) (clock : I64) :
    wp (append_replay_nonce crates faults nonce clock)
      (fun nonces d => replayNoncesOf crates (((disk .replay).getD (.text [])).append
          (nonceCodec.line ⟨nonce, some clock⟩ ++ ['\n'])) clock = .ok nonces ∧
        d .replay = some (.text (nonceCodec.text (compactRecords nonces))))
      (fun _ => True) disk := by
  rw [append_replay_nonce, wp_bind, wp_mapError]
  refine wp_appendLine (fun _ => ?_) fun _ => trivial
  rw [wp_bind, load_replay_nonces, wp_bind, wp_mapError]
  refine wp_read (Function.update_self ..) (fun _ => ?_) fun _ => trivial
  rcases hload : replayNoncesOf crates (((disk .replay).getD (.text [])).append
    (nonceCodec.line ⟨nonce, some clock⟩ ++ ['\n'])) clock with e | nonces
  · exact trivial
  · rw [wp_outcome_ok, wp_bind, compact_replay_nonces, wp_mapError]
    exact wp_atomic_write (fun _ _ => ⟨rfl, rfl⟩) (fun _ => trivial) fun _ => trivial

theorem append_replay_nonce.succeeds {crates : Crates} {faults : Faults StoreFile}
    {disk : Disk StoreFile} {nonce : String} (h : CanRecord crates faults disk nonce clock) :
    ∃ nonces after, append_replay_nonce crates faults nonce clock disk = .ok nonces after := by
  have hspec := append_replay_nonce.outcome crates faults disk nonce clock
  rcases hrun : append_replay_nonce crates faults nonce clock disk with ⟨nonces, d⟩ | ⟨e, d⟩
  · exact ⟨nonces, d, rfl⟩
  · exact absurd h (hspec.of_error hrun)

/-- What a recording is to give for a replay file: the nonce itself, no more nonces than the
cap, the newest ones that are retained, and a file that reads back as they are. -/
structure Recorded (crates : Crates) (nonce : String) (clock : I64) (before after : Disk StoreFile)
    (nonces : SortedMap String I64) : Prop where
  contains : nonces.contains_key nonce = true
  cap : nonces.len ≤ MAX_REPLAY_NONCE_RECORDS
  newest : Newest clock (replayRecords before ++ [⟨nonce, some clock⟩]) nonces
  reload : ∃ content, after .replay = some content ∧ replayNoncesOf crates content clock = .ok nonces

/-- What a recording gives and leaves, by the records of the file. -/
theorem append_replay_nonce.loaded {crates : Crates} {faults : Faults StoreFile}
    {before after : Disk StoreFile} {nonce : String} {loaded nonces : SortedMap String I64}
    (hfile : replayNoncesOf crates ((before .replay).getD (.text [])) now = .ok loaded)
    (hrun : append_replay_nonce crates faults nonce clock before = .ok nonces after) :
    nonces = loadedNonces clock (replayRecords before ++ [⟨nonce, some clock⟩]) ∧
      ∃ content, after .replay = some content ∧
        replayNoncesOf crates content clock = .ok nonces := by
  obtain ⟨hload, hafter⟩ := (append_replay_nonce.run crates faults before nonce clock).of_ok hrun
  obtain ⟨hreadable, -, -⟩ := replayNoncesOf_ok hfile
  obtain ⟨hreadable', hblank, hnonces⟩ := replayNoncesOf_ok hload
  rw [nonceCodec.recordsOf_append_line nonceCodec_bracketed hreadable hreadable'] at hnonces hblank
  refine ⟨hnonces, _, hafter, ?_⟩
  rw [hnonces, replayNoncesOf_text (compactRecords_loadedNonces hblank),
    loadedNonces_compactRecords (loadedNonces_len _ _) fun e he => (loadedNonces_mem he).2]

theorem not_recorded {crates : Crates} {faults : Faults StoreFile} {before after : Disk StoreFile}
    {nonce : String} {loaded nonces : SortedMap String I64}
    (hfile : replayNoncesOf crates ((before .replay).getD (.text [])) now = .ok loaded)
    (hrun : append_replay_nonce crates faults nonce clock before = .ok nonces after)
    (hfull : MAX_REPLAY_NONCE_RECORDS ≤ (laterNonces clock (replayRecords before) nonce).length) :
    ¬ Recorded crates nonce clock before after nonces := by
  obtain ⟨rfl, -⟩ := append_replay_nonce.loaded hfile hrun
  intro hrecorded
  exact not_lt.mpr hfull ((loadedNonces_contains_iff nonce).mp hrecorded.contains)

/-- A recording does its work exactly when less than the cap of the other nonces in the file
would be dropped after the new one. -/
theorem recorded_iff {crates : Crates} {faults : Faults StoreFile} {before after : Disk StoreFile}
    {nonce : String} {loaded nonces : SortedMap String I64}
    (hfile : replayNoncesOf crates ((before .replay).getD (.text [])) now = .ok loaded)
    (hrun : append_replay_nonce crates faults nonce clock before = .ok nonces after) :
    Recorded crates nonce clock before after nonces ↔
      (laterNonces clock (replayRecords before) nonce).length < MAX_REPLAY_NONCE_RECORDS := by
  constructor
  · intro hrecorded
    by_contra hfull
    exact not_recorded hfile hrun (not_lt.mp hfull) hrecorded
  · intro hroom
    obtain ⟨rfl, hreload⟩ := append_replay_nonce.loaded hfile hrun
    exact ⟨(loadedNonces_contains_iff nonce).mpr hroom, loadedNonces_len _ _,
      loadedNonces_newest _ _, hreload⟩

def eight : I64 := ⟨8, by decide, by decide⟩

def nine : I64 := ⟨9, by decide, by decide⟩

/-- A replay file with the nonce of an earlier call, whose clock was ahead. -/
def oneRecord : Disk StoreFile := Function.update (fun _ => none) .replay
  (some (.text (nonceCodec.line ⟨"nonce-1", some nine⟩ ++ ['\n'])))

theorem canRecord_second : CanRecord .ascii noFaults oneRecord "nonce-2" eight := by
  refine ⟨⟨rfl, rfl, rfl, rfl⟩, ?_⟩
  decide +kernel

theorem oneRecord_loads :
    (replayNoncesOf .ascii ((oneRecord .replay).getD (.text [])) eight).isOk = true := by
  decide +kernel

theorem laterNonces_oneRecord :
    laterNonces eight (replayRecords oneRecord) "nonce-2" = ["nonce-1"] := by
  decide +kernel

theorem recorded_second : ∃ nonces after,
    append_replay_nonce .ascii noFaults "nonce-2" eight oneRecord = .ok nonces after ∧
      Recorded .ascii "nonce-2" eight oneRecord after nonces := by
  obtain ⟨nonces, after, hrun⟩ := append_replay_nonce.succeeds canRecord_second
  obtain ⟨loaded, hfile⟩ : ∃ loaded,
      replayNoncesOf .ascii ((oneRecord .replay).getD (.text [])) eight = .ok loaded := by
    have hloads := oneRecord_loads
    rcases hfile : replayNoncesOf .ascii ((oneRecord .replay).getD (.text [])) eight with e | loaded
    · rw [hfile] at hloads
      cases hloads
    · exact ⟨loaded, rfl⟩
  refine ⟨nonces, after, hrun, (recorded_iff hfile hrun).mpr ?_⟩
  rw [laterNonces_oneRecord]
  decide

/-! ### A clock that goes back -/

theorem lastRetained_of_all {nonce : String} {seconds : I64}
    (hseconds : ∀ record ∈ records, record.recorded_at_epoch_seconds = some seconds)
    (hret : nonce_is_retained seconds now = true)
    (hmem : nonce ∈ records.map ReplayNonceRecord.nonce) :
    lastRetained now records nonce = some seconds := by
  obtain ⟨record, hrecord, hnonce⟩ := List.mem_map.mp hmem
  have hin : record ∈ records.filter fun record => record.nonce = nonce &&
      nonce_is_retained (record.recorded_at_epoch_seconds.getD now) now :=
    List.mem_filter.mpr ⟨hrecord, by simp [hnonce, hseconds record hrecord, hret]⟩
  obtain ⟨last, hlast⟩ := Option.isSome_iff_exists.mp
    (List.getLast?_isSome.mpr (List.ne_nil_of_mem hin))
  have hsome := hseconds last (List.mem_of_mem_filter (List.mem_of_getLast? hlast))
  rw [lastRetained, hlast, Option.map_some, hsome]
  rfl

/-- A name for each number. -/
def numbered (n : Nat) : String := .ofList ('n' :: Nat.toDigits 10 n)

theorem numbered_inj {m n : Nat} (h : numbered m = numbered n) : m = n := by
  have htext := congrArg String.toList h
  rw [numbered, numbered, String.toList_ofList, String.toList_ofList, List.cons.injEq] at htext
  rw [← Nat.ofDigitChars_ten_toDigits (n := m), htext.2, Nat.ofDigitChars_ten_toDigits]

/-- A directory with nothing but a replay file. -/
def replayFile (records : List ReplayNonceRecord) : Disk StoreFile :=
  Function.update (fun _ => none) .replay (some (.text (nonceCodec.text records)))

theorem replayRecords_replayFile (records : List ReplayNonceRecord) :
    replayRecords (replayFile records) = records := nonceCodec.recordsOf_text records

theorem canRecord_replayFile {crates : Crates} {nonce : String}
    (h : ∀ record ∈ records ++ [⟨nonce, some clock⟩], ¬ IsBlank record.nonce) :
    CanRecord crates noFaults (replayFile records) nonce clock := by
  refine ⟨⟨rfl, rfl, rfl, rfl⟩, ?_⟩
  have hfile : (replayFile records .replay).getD (.text []) = .text (nonceCodec.text records) := rfl
  rw [hfile, Content.append_text, nonceCodec.text_snoc, replayNoncesOf_text h]
  rfl

/-- As many nonces as the cap, recorded in one second. -/
def crowd : List ReplayNonceRecord :=
  (List.range MAX_REPLAY_NONCE_RECORDS).map fun n => ⟨numbered n, some ⟨1, by decide, by decide⟩⟩

theorem mem_crowd {record : ReplayNonceRecord} (h : record ∈ crowd) :
    ∃ n, record = ⟨numbered n, some ⟨1, by decide, by decide⟩⟩ := by
  obtain ⟨n, -, rfl⟩ := List.mem_map.mp h
  exact ⟨n, rfl⟩

theorem crowd_not_blank : ∀ record ∈ crowd, ¬ IsBlank record.nonce := by
  intro record hr
  obtain ⟨n, rfl⟩ := mem_crowd hr
  rw [IsBlank, trim_eq_nil_iff, numbered, String.toList_ofList, List.all_cons]
  simp [show isWhitespace 'n' = false from by decide]

theorem crowd_nodup : (crowd.map ReplayNonceRecord.nonce).Nodup := by
  rw [crowd, List.map_map]
  exact List.nodup_range.map fun m n h => numbered_inj h

/-- All the others come after a nonce that is recorded a second before them. -/
theorem laterNonces_crowd :
    laterNonces ⟨0, by decide, by decide⟩ crowd "a" = crowd.map ReplayNonceRecord.nonce := by
  rw [laterNonces, crowd_nodup.dedup, List.filter_eq_self]
  intro nonce hn
  have hseconds : ∀ record ∈ crowd,
      record.recorded_at_epoch_seconds = some ⟨1, by decide, by decide⟩ := by
    intro record hr
    obtain ⟨n, rfl⟩ := mem_crowd hr
    rfl
  have hname : nonce ≠ "a" := by
    obtain ⟨record, hr, rfl⟩ := List.mem_map.mp hn
    obtain ⟨n, rfl⟩ := mem_crowd hr
    intro h
    have htext := congrArg String.toList h
    rw [numbered, String.toList_ofList] at htext
    cases htext
  have hret : nonce_is_retained ⟨1, by decide, by decide⟩ ⟨0, by decide, by decide⟩ = true := by
    decide
  rw [lastRetained_of_all hseconds hret hn, Option.any_some, Bool.and_eq_true,
    decide_eq_true_iff, decide_eq_true_iff]
  exact ⟨hname, .inl (I64.lt_def.mpr Int.zero_lt_one)⟩

/-- The nonce "a" is recorded a second before the others, and its recording forgets it. -/
theorem crowd_forgets : ∃ loaded nonces after,
    replayNoncesOf .ascii ((replayFile crowd .replay).getD (.text [])) ⟨1, by decide, by decide⟩ =
      .ok loaded ∧
    append_replay_nonce .ascii noFaults "a" ⟨0, by decide, by decide⟩ (replayFile crowd) =
      .ok nonces after ∧
    ¬ Recorded .ascii "a" ⟨0, by decide, by decide⟩ (replayFile crowd) after nonces := by
  have hblank : ∀ record ∈ crowd ++ [⟨"a", some ⟨0, by decide, by decide⟩⟩],
      ¬ IsBlank record.nonce := by
    intro record hr
    rcases List.mem_append.mp hr with hr | hr
    · exact crowd_not_blank record hr
    · rw [List.mem_singleton.mp hr]
      decide
  have hfile : replayNoncesOf .ascii ((replayFile crowd .replay).getD (.text []))
      ⟨1, by decide, by decide⟩ = .ok (loadedNonces ⟨1, by decide, by decide⟩ crowd) :=
    replayNoncesOf_text crowd_not_blank
  have hfull : MAX_REPLAY_NONCE_RECORDS ≤
      (laterNonces ⟨0, by decide, by decide⟩ (replayRecords (replayFile crowd)) "a").length := by
    rw [replayRecords_replayFile, laterNonces_crowd, List.length_map, crowd, List.length_map,
      List.length_range]
  obtain ⟨nonces, after, hrun⟩ :=
    append_replay_nonce.succeeds (@canRecord_replayFile _ _ .ascii _ hblank)
  exact ⟨_, nonces, after, hfile, hrun, not_recorded hfile hrun hfull⟩

end store
