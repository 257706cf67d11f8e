-- What the replay file of the store comes to when it is read: the nonces that are still
-- retained, and an error as soon as one nonce is blank.
import GuiShell.Broker.Store

open files json_lines

namespace store

/-! ## Retained nonces -/

theorem nonce_is_retained_iff {recorded_at now : I64} :
    nonce_is_retained recorded_at now = true ↔
      now.val - recorded_at.val ≤ REPLAY_NONCE_RETENTION_SECONDS := by
  have := now.upper
  have := recorded_at.lower
  rw [nonce_is_retained, decide_eq_true_iff, I64.saturating_sub, REPLAY_NONCE_RETENTION_SECONDS]
  omega

/-- The nonces that are retained at a time. -/
def retained (now : I64) (nonces : SortedMap String I64) : SortedMap String I64 :=
  nonces.filter fun e => nonce_is_retained e.2 now

/-! ## Reading records -/

/-- The loader refuses it as a nonce and as a session id. -/
def IsBlank (s : String) : Prop := trim s.toList = []

instance (s : String) : Decidable (IsBlank s) := inferInstanceAs (Decidable (_ = _))

/-- What the loop does with a record that is not blank. -/
def keep (now : I64) (nonces : SortedMap String I64) (record : ReplayNonceRecord) :
    SortedMap String I64 :=
  let recorded_at := record.recorded_at_epoch_seconds.getD now
  if nonce_is_retained recorded_at now then nonces.insert record.nonce recorded_at else nonces

/-- The nonces of the records. -/
def keptNonces (now : I64) (records : List ReplayNonceRecord) : SortedMap String I64 :=
  records.foldl (keep now) .empty

/-- The nonces that the loader gives for the records. -/
def loadedNonces (now : I64) (records : List ReplayNonceRecord) : SortedMap String I64 :=
  dropOldest (keptNonces now records).len (keptNonces now records)

variable {now : I64} {records : List ReplayNonceRecord}

theorem keepNonce_eq (line : Nat) (nonces : SortedMap String I64) {record : ReplayNonceRecord}
    (h : ¬ IsBlank record.nonce) :
    keepNonce now line nonces record = .ok (keep now nonces record) := by
  unfold IsBlank at h
  unfold keepNonce keep
  rw [if_neg h]
  dsimp only
  split <;> rfl

theorem foldRecords_keepNonce (h : ∀ record ∈ records, ¬ IsBlank record.nonce) (line : Nat)
    (nonces : SortedMap String I64) :
    foldRecords (keepNonce now) line nonces records = .ok (records.foldl (keep now) nonces) := by
  induction records generalizing line nonces with
  | nil => rfl
  | cons record records ih =>
    rw [foldRecords, keepNonce_eq line nonces (h record List.mem_cons_self)]
    exact ih (fun r hr => h r (List.mem_cons_of_mem _ hr)) _ _

theorem foldRecords_keepNonce_blank (now : I64)
    (h : ∃ record ∈ records, IsBlank record.nonce) (line : Nat) (nonces : SortedMap String I64) :
    ∃ e, foldRecords (keepNonce now) line nonces records = .error e := by
  induction records generalizing line nonces with
  | nil =>
    obtain ⟨_, hr, _⟩ := h
    cases hr
  | cons record records ih =>
    rw [foldRecords]
    by_cases hb : IsBlank record.nonce
    · unfold IsBlank at hb
      rw [keepNonce, if_pos hb]
      exact ⟨_, rfl⟩
    · rw [keepNonce_eq line nonces hb]
      obtain ⟨r, hr, hrb⟩ := h
      rcases List.mem_cons.mp hr with rfl | hr
      · exact absurd hrb hb
      · exact ih ⟨r, hr, hrb⟩ _ _

/-- A file of records that are not blank loads. -/
theorem replayNoncesOf_text {crates : Crates} (h : ∀ record ∈ records, ¬ IsBlank record.nonce) :
    replayNoncesOf crates (.text (nonceCodec.text records)) now = .ok (loadedNonces now records) := by
  unfold replayNoncesOf
  rw [foldLines_text, foldRecords_keepNonce h]
  rfl

/-- A file with a blank record does not load. -/
theorem replayNoncesOf_text_blank (crates : Crates) (now : I64)
    (h : ∃ record ∈ records, IsBlank record.nonce) :
    ∃ e, replayNoncesOf crates (.text (nonceCodec.text records)) now = .error e := by
  obtain ⟨e, he⟩ := foldRecords_keepNonce_blank now h 1 .empty
  unfold replayNoncesOf
  rw [foldLines_text, he]
  exact ⟨e, rfl⟩

/-! ## Dropping the oldest -/

theorem oldest_key_mem {l : List (String × I64)} {e : String × I64} (h : oldest_key l = some e) :
    e ∈ l := by
  induction l generalizing e with
  | nil => cases h
  | cons e' l ih =>
    rw [oldest_key] at h
    split at h
    · cases h
      exact List.mem_cons_self
    · rename_i e'' hl
      split at h
      · cases h
        exact List.mem_cons_self
      · cases h
        exact List.mem_cons_of_mem _ (ih hl)

theorem oldest_key_eq_none {l : List (String × I64)} (h : oldest_key l = none) : l = [] := by
  cases l with
  | nil => rfl
  | cons e l =>
    rw [oldest_key] at h
    split at h
    · cases h
    · split at h <;> cases h

theorem dropOldest_subset (fuel : Nat) (nonces : SortedMap String I64) :
    (dropOldest fuel nonces).entries ⊆ nonces.entries := by
  induction fuel generalizing nonces with
  | zero => exact List.Subset.refl _
  | succ fuel ih =>
    rw [dropOldest]
    split
    · split
      · exact List.Subset.trans (ih _) (nonces.entries_remove_subset _)
      · exact List.Subset.refl _
    · exact List.Subset.refl _

theorem dropOldest_of_le (fuel : Nat) {nonces : SortedMap String I64}
    (h : nonces.len ≤ MAX_REPLAY_NONCE_RECORDS) : dropOldest fuel nonces = nonces := by
  cases fuel with
  | zero => rfl
  | succ fuel => rw [dropOldest, if_neg (Nat.not_lt.mpr h)]

/-- With fuel for every nonce too many, no nonce too many stays. -/
theorem dropOldest_len {fuel : Nat} {nonces : SortedMap String I64}
    (h : nonces.len ≤ MAX_REPLAY_NONCE_RECORDS + fuel) :
    (dropOldest fuel nonces).len ≤ MAX_REPLAY_NONCE_RECORDS := by
  induction fuel generalizing nonces with
  | zero => exact h
  | succ fuel ih =>
    rw [dropOldest]
    split
    · split
      · rename_i oldest ho
        have := SortedMap.len_remove_lt (oldest_key_mem ho)
        apply ih
        omega
      · rename_i hlen ho
        rw [SortedMap.len, oldest_key_eq_none ho]
        exact Nat.zero_le _
    · exact Nat.not_lt.mp ‹_›

theorem loadedNonces_len (now : I64) (records : List ReplayNonceRecord) :
    (loadedNonces now records).len ≤ MAX_REPLAY_NONCE_RECORDS :=
  dropOldest_len (Nat.le_add_left _ _)

/-! ## Where the loaded nonces come from -/

theorem keep_mem {nonces : SortedMap String I64} {record : ReplayNonceRecord} {e : String × I64}
    (h : e ∈ (keep now nonces record).entries) :
    (e.1 = record.nonce ∧ nonce_is_retained e.2 now = true) ∨ e ∈ nonces.entries := by
  unfold keep at h
  dsimp only at h
  split at h
  · rename_i hr
    rcases sorted_map.mem_insert h with rfl | h
    · exact .inl ⟨rfl, hr⟩
    · exact .inr h
  · exact .inr h

/-- Every loaded nonce is the nonce of a record, and it is retained. -/
theorem keptNonces_mem {e : String × I64} (h : e ∈ (keptNonces now records).entries) :
    (∃ record ∈ records, record.nonce = e.1) ∧ nonce_is_retained e.2 now = true := by
  induction records using List.reverseRecOn with
  | nil => cases h
  | append_singleton records record ih =>
    rw [keptNonces, List.foldl_append] at h
    rcases keep_mem h with ⟨hk, hr⟩ | h
    · exact ⟨⟨record, by simp, hk.symm⟩, hr⟩
    · obtain ⟨⟨r, hr, hn⟩, hret⟩ := ih h
      exact ⟨⟨r, List.mem_append_left _ hr, hn⟩, hret⟩

theorem loadedNonces_mem {e : String × I64} (h : e ∈ (loadedNonces now records).entries) :
    (∃ record ∈ records, record.nonce = e.1) ∧ nonce_is_retained e.2 now = true :=
  keptNonces_mem (dropOldest_subset _ _ h)

/-! ## Compacting and reading back -/

theorem mem_compactRecords {nonces : SortedMap String I64} {record : ReplayNonceRecord} :
    record ∈ compactRecords nonces ↔ ∃ e ∈ nonces.entries, (⟨e.1, some e.2⟩ : ReplayNonceRecord) = record := by
  rw [compactRecords, List.mem_map]
  simp only [List.mem_insertionSort]

/-- The records of loaded nonces are not blank when the records they come from are not. -/
theorem compactRecords_loadedNonces (h : ∀ record ∈ records, ¬ IsBlank record.nonce) :
    ∀ record ∈ compactRecords (loadedNonces now records), ¬ IsBlank record.nonce := by
  intro record hr
  obtain ⟨e, he, rfl⟩ := mem_compactRecords.mp hr
  obtain ⟨⟨r, hr, hn⟩, _⟩ := loadedNonces_mem he
  exact hn ▸ h r hr

theorem foldl_keep_map (l : List (String × I64)) (nonces : SortedMap String I64) :
    ((l.map fun e => (⟨e.1, some e.2⟩ : ReplayNonceRecord)).foldl (keep now) nonces).entries =
      sorted_map.insertAll (l.filter fun e => nonce_is_retained e.2 now) nonces.entries := by
  induction l generalizing nonces with
  | nil => rfl
  | cons e l ih =>
    rw [List.map_cons, List.foldl_cons, ih, keep]
    dsimp only [Option.getD_some]
    by_cases h : nonce_is_retained e.2 now = true
    · rw [if_pos h, List.filter_cons, if_pos h]
      rfl
    · rw [if_neg h, List.filter_cons, if_neg h]

/-- A compacted file reads as the nonces that are still retained. -/
theorem keptNonces_compactRecords (nonces : SortedMap String I64) :
    keptNonces now (compactRecords nonces) = retained now nonces := by
  have hperm : ((nonces.entries.insertionSort recordOrder).filter fun e =>
      nonce_is_retained e.2 now).Perm (nonces.entries.filter fun e => nonce_is_retained e.2 now) :=
    (List.perm_insertionSort recordOrder nonces.entries).filter _
  apply SortedMap.eq_of_entries
  rw [keptNonces, compactRecords, foldl_keep_map]
  exact sorted_map.ofList_eq_of_perm (retained now nonces).sorted hperm

/-- No retained nonce is dropped from a compacted file. -/
theorem loadedNonces_eq_retained {nonces : SortedMap String I64}
    (hlen : nonces.len ≤ MAX_REPLAY_NONCE_RECORDS) :
    loadedNonces now (compactRecords nonces) = retained now nonces := by
  rw [loadedNonces, keptNonces_compactRecords]
  exact dropOldest_of_le _ ((nonces.len_filter_le _).trans hlen)

/-- Nonces that are all retained read back as they are. -/
theorem loadedNonces_compactRecords {nonces : SortedMap String I64}
    (hlen : nonces.len ≤ MAX_REPLAY_NONCE_RECORDS)
    (hret : ∀ e ∈ nonces.entries, nonce_is_retained e.2 now = true) :
    loadedNonces now (compactRecords nonces) = nonces := by
  rw [loadedNonces_eq_retained hlen, retained, SortedMap.filter_eq_self hret]

/-- A nonce that is recorded stands beside the retained ones. -/
theorem keptNonces_record (nonces : SortedMap String I64) (nonce : String) :
    keptNonces now (compactRecords nonces ++ [⟨nonce, some now⟩]) =
      (retained now nonces).insert nonce now := by
  rw [← keptNonces_compactRecords, keptNonces, List.foldl_append]
  have hnow : nonce_is_retained now now = true := by
    rw [nonce_is_retained_iff, Int.sub_self]
    decide
  simp only [List.foldl_cons, List.foldl_nil, keep, Option.getD_some, if_pos hnow]
  rfl

/-- With room for it, the recorded nonce pushes no other one out. -/
theorem loadedNonces_record {nonces : SortedMap String I64}
    (hroom : (retained now nonces).len < MAX_REPLAY_NONCE_RECORDS) (nonce : String) :
    loadedNonces now (compactRecords nonces ++ [⟨nonce, some now⟩]) =
      (retained now nonces).insert nonce now := by
  rw [loadedNonces, keptNonces_record]
  exact dropOldest_of_le _ ((SortedMap.len_insert_le ..).trans hroom)

end store
