-- Whether appends can hide that a durable log was tampered with. An append checks the chain of
-- the lines that it finds and never the anchor, and makes the anchor anew. So it hides every
-- tampering that leaves a chain that verifies, and no other.
import GuiShell.ShellCore.TamperedLog

open files python_json

namespace shell_core.tampered_log

open persistence (StoreFile Raised universal_newlines logText)

variable {host : Host}

/-! ## Records of the log -/

theorem plain_tagged (b : Bytes) : Plain ("sha256:" ++ hex.encode b) := by
  intro c hc
  rw [String.toList_append, List.mem_append, hex.encode] at hc
  rcases hc with hc | hc
  · have hprefix : Plain "sha256:" := by decide
    exact hprefix c hc
  · rw [String.toList_ofList] at hc
    obtain ⟨n, hn, rfl⟩ := hex.mem_digits hc
    have hdigit : ∀ n < 16, (0x20 ≤ (hex.digit n).toNat ∧ (hex.digit n).toNat ≤ 0x7e) ∧
        hex.digit n ≠ '"' ∧ hex.digit n ≠ '\\' := by decide
    exact hdigit n hn

theorem item_record {F : Type} (field : String) (fields : Fields) :
    item (record (F := F) fields) field =
      ((sorted_map.get field fields).map Leaf.value).getD .none := by
  unfold item
  rw [get_record]

/-- An event with nothing but its id. -/
def idFields (s : String) : Fields := [("event_id", .text s)]

/-- The event that is hashed. -/
def hashedFields (s : String) (leaf : Leaf) : Fields :=
  [("event_id", .text s), ("previous_event_hash", leaf)]

def hashOf (host : Host) (s : String) (leaf : Leaf) : String :=
  hashText host (recordText json.compact (hashedFields s leaf))

def chainedFields (host : Host) (s : String) (leaf : Leaf) : Fields :=
  hashedFields s leaf ++ [("event_hash", .text (hashOf host s leaf))]

/-- The chained event in the order in which it is written. -/
def storedFields (host : Host) (s : String) (leaf : Leaf) : Fields :=
  ("event_hash", .text (hashOf host s leaf)) :: hashedFields s leaf

section records

variable {s : String} {leaf : Leaf}

theorem writes_hashedFields (hs : Plain s) (hleaf : leaf.Writes) :
    (hashedFields s leaf).Writes := by
  have hkeys : Plain "event_id" ∧ Plain "previous_event_hash" := by decide
  intro e he
  simp only [hashedFields, List.mem_cons, List.not_mem_nil, or_false] at he
  rcases he with rfl | rfl
  · exact ⟨hkeys.1, hs⟩
  · exact ⟨hkeys.2, hleaf⟩

theorem writes_storedFields (hs : Plain s) (hleaf : leaf.Writes) :
    (storedFields host s leaf).Writes := by
  have hkey : Plain "event_hash" := by decide
  exact List.forall_mem_cons.mpr ⟨⟨hkey, plain_tagged _⟩, writes_hashedFields hs hleaf⟩

theorem sorted_storedFields :
    sorted_map.Sorted (record (F := host.python.Float) (storedFields host s leaf)) := by
  have hkeys : str "event_hash" < str "event_id" ∧ str "event_id" < str "previous_event_hash" := by
    decide
  have hlast := hkeys.1.trans hkeys.2
  simp [sorted_map.Sorted, record, storedFields, hashedFields, hkeys, hlast]

theorem sorted_hashedFields :
    sorted_map.Sorted (record (F := host.python.Float) (hashedFields s leaf)) :=
  (List.pairwise_cons.mp (@sorted_storedFields host s leaf)).2

theorem canonical_hash_hashedFields (hs : Plain s) (hleaf : leaf.Writes) :
    canonical_hash host (.dict (record (hashedFields s leaf))) = some (hashOf host s leaf) := by
  unfold canonical_hash python_json.dumps
  rw [dumpsAs_record (List.Perm.refl _) (writes_hashedFields hs hleaf) sorted_hashedFields]
  rfl

/-- An event with an id, and maybe with the hash before it, is chained to that hash. -/
theorem chain_event_record (hs : Plain s) (hleaf : leaf.Writes) {fields : Fields}
    (hfields : fields = idFields s ∨ fields = hashedFields s leaf) :
    chain_event host (record fields) leaf.value = some (record (chainedFields host s leaf)) := by
  have hset : dict.setItem (str "previous_event_hash") leaf.value
      (record (F := host.python.Float) fields) = record (hashedFields s leaf) := by
    rcases hfields with rfl | rfl <;>
      simp [record, idFields, hashedFields, dict.setItem, str_inj]
  have herase : sorted_map.erase (str "event_hash")
      (record (F := host.python.Float) (hashedFields s leaf)) = record (hashedFields s leaf) := by
    simp [record, hashedFields, sorted_map.erase, str_inj]
  unfold chain_event
  rw [if_pos (copies_record fields)]
  dsimp only
  rw [hset, herase, canonical_hash_hashedFields hs hleaf]
  simp [record, hashedFields, chainedFields, dict.setItem, str_inj, Leaf.value]

/-- An event with a new id links when it is chained, written and read back. -/
theorem links_storedFields (hs : Plain s) (hne : s ≠ "") (hleaf : leaf.Writes)
    {seen : List host.Value} (hnew : ∀ v ∈ seen, v ≠ .str (str s)) :
    Links leaf.value seen (record (storedFields host s leaf)) := by
  have hid : item (record (F := host.python.Float) (storedFields host s leaf)) "event_id" =
      .str (str s) := by
    rw [item_record]
    simp [storedFields, hashedFields, sorted_map.get_cons, Leaf.value]
  have hprevious : item (record (F := host.python.Float) (storedFields host s leaf))
      "previous_event_hash" = leaf.value := by
    rw [item_record]
    simp [storedFields, hashedFields, sorted_map.get_cons]
  have herase : sorted_map.erase (str "event_hash")
      (record (F := host.python.Float) (storedFields host s leaf)) =
        record (hashedFields s leaf) := by
    simp [record, storedFields, hashedFields, sorted_map.erase, str_inj]
  refine ⟨?_, ?_, ?_, ?_, record (chainedFields host s leaf), ?_, ?_⟩
  · rw [hid]
    simpa [python_json.truthy, str] using hne
  · rw [hid]
    rfl
  · rw [hid, List.any_eq_false]
    intro v hv
    rw [same_str_iff]
    exact hnew v hv
  · rw [hprevious]
    exact eq_leaf leaf
  · rw [herase]
    exact chain_event_record hs hleaf (.inr rfl)
  · rw [item_record, item_record]
    simp [storedFields, chainedFields, hashedFields, sorted_map.get_cons, Leaf.value, eq_str_iff]

end records

/-! ## What the functions do to the files -/

section store

variable {disk : Disk StoreFile} {l : List host.Dict} {leaf : Leaf} {E : Disk StoreFile → Prop}

theorem wp_orRaise {α : Type} {e : Raised} {o : Option α} {Q : α → Disk StoreFile → Prop} :
    wp (orRaise e o) Q E disk ↔ match o with
      | some a => Q a disk
      | none => E disk := by
  cases o <;> rfl

/-- The events of the log, if it is read without an error. -/
def events (host : Host) (disk : Disk StoreFile) : Option (List host.Dict) :=
  if ((disk .audit).getD (.text [])).broken then none else eventsOf host (logText disk)

/-- The events that an append finds: it copies what it reads. -/
def found (host : Host) (disk : Disk StoreFile) : Option (List host.Dict) :=
  (events host disk).filter fun l => copies host.python (.list (l.map .dict))

abbrev key (host : Host) (disk : Disk StoreFile) : Option Bytes := persistence.key host.toHost disk

theorem wp_audit_events_report {Q : List host.Dict × List String → Disk StoreFile → Prop} :
    wp (audit_events_report host) Q E disk ↔
      if ((disk .audit).getD (.text [])).broken then E disk
      else match reportOf host (logText disk) with
        | some report => Q report disk
        | none => E disk := by
  unfold audit_events_report logText
  rw [wp_bind, wp_fileExists]
  rcases hlog : disk .audit with _ | content
  · rfl
  · simp only [Option.isSome_some, if_true, wp_bind, persistence.wp_readToString_noFaults hlog,
      Option.getD_some, wp_orRaise]
    split
    · rfl
    · cases reportOf host content.chars <;> rfl

theorem wp_audit_events {Q : List host.Dict → Disk StoreFile → Prop} :
    wp (audit_events host) Q E disk ↔ match found host disk with
      | some l => Q l disk
      | none => E disk := by
  unfold audit_events found events
  rw [wp_bind, wp_audit_events_report]
  split
  · rfl
  · rcases hreport : reportOf host (logText disk) with _ | ⟨l, errors⟩
    · rcases hevents : eventsOf host (logText disk) with _ | l
      · rfl
      · rw [reportOf_eq_iff.mpr hevents] at hreport
        cases hreport
    · dsimp only
      by_cases herrors : errors = []
      · subst herrors
        rw [if_neg (by simp), reportOf_eq_iff.mp hreport, Option.filter_some]
        by_cases hcopies : copies host.python (.list (l.map .dict)) = true
        · rw [if_pos hcopies, if_pos hcopies]
          rfl
        · rw [if_neg hcopies, if_neg hcopies]
          rfl
      · rw [if_pos herrors, wp_throw]
        rcases hevents : eventsOf host (logText disk) with _ | l'
        · rfl
        · rw [reportOf_eq_iff.mpr hevents] at hreport
          cases hreport
          exact absurd rfl herrors

/-! ### The anchor -/

/-- What the anchor says of `n` events, in the order in which it is written. -/
def sortedBody (n : Nat) (leaf : Leaf) : Fields :=
  [("event_count", .count n), ("head_event_hash", leaf), ("version", .count 1)]

def messageOf (n : Nat) (leaf : Leaf) : List Char := recordText json.compact (sortedBody n leaf)

def anchorFields (host : Host) (key : Bytes) (n : Nat) (leaf : Leaf) : Fields :=
  ("anchor_hmac", .text (audit_hash.hmac_sha256_tagged host.sha256 key
    (utf8.encode (.ofList (messageOf n leaf))))) :: sortedBody n leaf

/-- A count that `json.dumps` writes. -/
abbrev Countable (n : Nat) : Prop := n < 10 ^ MAX_STR_DIGITS

theorem anchorBody_perm (hhead : head host l = leaf.value) : ∃ fields : Fields,
    anchorBody host l = record fields ∧ fields.Perm (sortedBody l.length leaf) := by
  refine ⟨("version", .count 1) :: ("event_count", .count l.length) ::
    [("head_event_hash", leaf)], ?_, ?_⟩
  · simp [anchorBody, record, Leaf.value, hhead]
  · exact @List.perm_append_comm _ [("version", Leaf.count 1)] _

theorem writes_sortedBody {n : Nat} (hleaf : leaf.Writes) (hcount : Countable n) :
    (sortedBody n leaf).Writes := by
  have hkeys : Plain "event_count" ∧ Plain "head_event_hash" ∧ Plain "version" := by decide
  have hone : Countable 1 := Nat.one_lt_pow (by decide) (by decide)
  intro e he
  simp only [sortedBody, List.mem_cons, List.not_mem_nil, or_false] at he
  rcases he with rfl | rfl | rfl
  · exact ⟨hkeys.1, hcount⟩
  · exact ⟨hkeys.2.1, hleaf⟩
  · exact ⟨hkeys.2.2, hone⟩

theorem writes_anchorFields {n : Nat} (hleaf : leaf.Writes) (hcount : Countable n)
    (key' : Bytes) : (anchorFields host key' n leaf).Writes := by
  have hkey : Plain "anchor_hmac" := by decide
  exact List.forall_mem_cons.mpr ⟨⟨hkey, plain_tagged _⟩, writes_sortedBody hleaf hcount⟩

theorem sorted_anchorFields (key' : Bytes) (n : Nat) (leaf : Leaf) :
    sorted_map.Sorted (record (F := host.python.Float) (anchorFields host key' n leaf)) := by
  have hkeys : str "anchor_hmac" < str "event_count" ∧ str "event_count" < str "head_event_hash" ∧
      str "head_event_hash" < str "version" := by decide
  have hcount := hkeys.2.1.trans hkeys.2.2
  simp [sorted_map.Sorted, record, anchorFields, sortedBody, hkeys, hcount,
    hkeys.1.trans hkeys.2.1, hkeys.1.trans hcount]

theorem dumps_anchorBody (hhead : head host l = leaf.value) (hleaf : leaf.Writes) :
    python_json.dumps host.python (.dict (anchorBody host l)) =
      if Countable l.length then some (messageOf l.length leaf) else none := by
  obtain ⟨fields, hbody, hperm⟩ := anchorBody_perm hhead
  rw [hbody]
  unfold python_json.dumps
  split
  · rename_i hcount
    exact dumpsAs_record hperm (writes_sortedBody hleaf hcount)
      (List.pairwise_cons.mp (@sorted_anchorFields host [] l.length leaf)).2
  · rename_i hcount
    have hmem : ("event_count", Leaf.count l.length) ∈ fields :=
      hperm.mem_iff.mpr List.mem_cons_self
    exact dumpsAs_long_count hmem hcount

theorem anchorRecord_perm (hhead : head host l = leaf.value) (key' : Bytes) : ∃ fields : Fields,
    anchorRecord host key' l (messageOf l.length leaf) = record fields ∧
      fields.Perm (anchorFields host key' l.length leaf) := by
  obtain ⟨fields, hbody, hperm⟩ := anchorBody_perm hhead
  refine ⟨fields ++ [("anchor_hmac", .text (audit_hash.hmac_sha256_tagged host.sha256 key'
    (utf8.encode (.ofList (messageOf l.length leaf)))))], ?_, ?_⟩
  · simp [anchorRecord, hbody, record, Leaf.value]
  · exact List.perm_append_comm.trans (hperm.cons _)

theorem dumps_indented_anchorRecord (hhead : head host l = leaf.value) (hleaf : leaf.Writes)
    (hcount : Countable l.length) (key' : Bytes) :
    python_json.dumps_indented host.python
        (.dict (anchorRecord host key' l (messageOf l.length leaf))) =
      some (recordText json.pretty (anchorFields host key' l.length leaf)) := by
  obtain ⟨fields, hrecord, hperm⟩ := anchorRecord_perm hhead key'
  rw [hrecord]
  exact dumpsAs_record hperm (writes_anchorFields hleaf hcount key') (sorted_anchorFields _ _ _)

theorem wp_anchor_record {Q : host.Dict → Disk StoreFile → Prop} :
    wp (anchor_record host l) Q E disk ↔
      match python_json.dumps host.python (.dict (anchorBody host l)), key host disk with
      | some message, some key' => Q (anchorRecord host key' l message)
          (persistence.withKey host.toHost disk)
      | _, _ => E disk := by
  unfold anchor_record
  rw [wp_bind, wp_orRaise]
  rcases python_json.dumps host.python (.dict (anchorBody host l)) with _ | message
  · rfl
  · simp only [wp_bind, persistence.wp_audit_anchor_key, wp_pure]
    unfold key
    cases persistence.key host.toHost disk <;> rfl

/-- The files with a new anchor. -/
def anchored (host : Host) (key' : Bytes) (n : Nat) (leaf : Leaf) (disk : Disk StoreFile) :
    Disk StoreFile :=
  Function.update (Function.update (persistence.withKey host.toHost disk) .audit_anchor
    (some (.text (recordText json.pretty (anchorFields host key' n leaf) ++ ['\n']))))
    .audit_anchor_tmp none

theorem wp_write_audit_anchor (hhead : head host l = leaf.value) (hleaf : leaf.Writes)
    {Q : Unit → Disk StoreFile → Prop} :
    wp (write_audit_anchor host l) Q E disk ↔
      if Countable l.length then
        match key host disk with
        | some key' => Q () (anchored host key' l.length leaf disk)
        | none => E disk
      else E disk := by
  unfold write_audit_anchor
  rw [wp_bind, wp_anchor_record, dumps_anchorBody hhead hleaf]
  by_cases hcount : Countable l.length
  · rw [if_pos hcount, if_pos hcount]
    rcases key host disk with _ | key'
    · rfl
    · simp only [wp_bind, dumps_indented_anchorRecord hhead hleaf hcount, wp_orRaise]
      exact persistence.wp_replace_anchor (E := E)
  · rw [if_neg hcount, if_neg hcount]

/-! ### The check -/

/-- The check of the log and its anchor comes to an end, and its result is ok. -/
def Ok (host : Host) (disk : Disk StoreFile) : Prop :=
  wp (verify_audit_chain host) (fun verification _ => verification.ok = true) (fun _ => False) disk

/-- The anchor is that of the events. An empty log needs none. -/
def AnchorOk (host : Host) (disk : Disk StoreFile) (l : List host.Dict) : Prop :=
  match disk .audit_anchor with
  | none => l = []
  | some content => content.broken = false ∧ ∃ stored message key',
      python_json.loads host.python (universal_newlines content.chars) = .value stored ∧
      python_json.dumps host.python (.dict (anchorBody host l)) = some message ∧
      key host disk = some key' ∧
      python_json.eq host.python stored (.dict (anchorRecord host key' l message)) = true

theorem wp_verify_audit_anchor :
    wp (verify_audit_anchor host l) (fun errors _ => errors = []) (fun _ => False) disk ↔
      AnchorOk host disk l := by
  unfold verify_audit_anchor AnchorOk
  rw [wp_bind, wp_fileExists]
  rcases hanchor : disk .audit_anchor with _ | content
  · simp only [Option.isSome_none, Bool.false_eq_true, if_false]
    by_cases hl : l = []
    · simp [hl]
    · simp [hl]
  · simp only [Option.isSome_some, if_true, wp_bind, persistence.wp_read_text hanchor]
    by_cases hbroken : content.broken = true
    · simp [hbroken]
    · rw [if_neg hbroken]
      rcases python_json.loads host.python (universal_newlines content.chars) with stored | _ | _
      · simp only [wp_bind, wp_anchor_record]
        rcases python_json.dumps host.python (.dict (anchorBody host l)) with _ | message
        · simp
        · rcases key host disk with _ | key'
          · simp
          · by_cases heq : python_json.eq host.python stored
                (.dict (anchorRecord host key' l message)) = true
            · simp [heq, hbroken]
            · simp [heq]
      · simp
      · simp

theorem ok_iff : Ok host disk ↔
    ∃ l, events host disk = some l ∧ Verified l ∧ AnchorOk host disk l := by
  unfold Ok verify_audit_chain events
  rw [wp_bind, wp_audit_events_report]
  by_cases hbroken : ((disk .audit).getD (.text [])).broken = true
  · simp [hbroken]
  · rw [if_neg hbroken, if_neg hbroken]
    constructor
    · intro h
      rcases hreport : reportOf host (logText disk) with _ | ⟨l, errors⟩
      · rw [hreport] at h
        exact h.elim
      · rw [hreport] at h
        simp only [wp_bind, wp_orRaise] at h
        rcases hchain : checkChain host l with _ | r
        · rw [hchain] at h
          exact h.elim
        · rw [hchain] at h
          have hall : wp (verify_audit_anchor host l)
              (fun anchorErrors _ => (r.ok = true ∧ errors = []) ∧ anchorErrors = [])
              (fun _ => False) disk := by
            refine h.mono (fun anchorErrors d hd => ?_) fun _ hd => hd
            rw [wp_pure] at hd
            simpa using hd
          have hok : r.ok = true ∧ errors = [] := by
            obtain ⟨_, _, -, hok, -⟩ := hall.total
            exact hok
          obtain ⟨hok, rfl⟩ := hok
          refine ⟨l, reportOf_eq_iff.mp hreport, ⟨r, hchain, hok⟩, ?_⟩
          rw [← wp_verify_audit_anchor]
          exact hall.mono (fun _ _ hd => hd.2) fun _ hd => hd
    · rintro ⟨l, hevents, ⟨r, hchain, hok⟩, hanchor⟩
      rw [reportOf_eq_iff.mpr hevents]
      simp only [wp_bind, wp_orRaise, hchain]
      refine (wp_verify_audit_anchor.mpr hanchor).mono (fun errors d herrors => ?_) fun _ h => h
      rw [wp_pure, herrors, hok]
      rfl

/-! ### The append -/

/-- An append gets as far as to write the line of the event. -/
structure Admits (disk : Disk StoreFile) (event : host.Dict) (l : List host.Dict)
    (chained : host.Dict) (line : List Char) : Prop where
  found : found host disk = some l
  verified : Verified l
  truthy_id : python_json.truthy host.python (item event "event_id") = true
  new_id : l.any (fun stored =>
    python_json.eq host.python (item stored "event_id") (item event "event_id")) = false
  chains : chain_event host event (head host l) = some chained
  writes : python_json.dumps host.python (.dict chained) = some line

theorem chain_event_dumps {event chained : host.Dict} {previous : host.Value}
    (h : chain_event host event previous = some chained) :
    ∃ line, python_json.dumps host.python (.dict chained) = some line := by
  unfold chain_event at h
  split at h
  · obtain ⟨hash, hhash, h⟩ := Option.bind_eq_some_iff.mp h
    obtain ⟨text, htext, -⟩ := Option.bind_eq_some_iff.mp hhash
    cases h
    exact dumps_setItem_str _ _ htext
  · cases h

/-- The files with the line of an event. -/
def logged (disk : Disk StoreFile) (line : List Char) : Disk StoreFile :=
  Function.update disk .audit
    (some (((disk .audit).getD (.text [])).append (line ++ ['\n'])))

theorem wp_ensure_log {Q : Unit → Disk StoreFile → Prop} :
    wp (mapError Raised.other (ensure noFaults .audit)) Q E disk ↔
      Q () (Function.update disk .audit (some ((disk .audit).getD (.text [])))) := Iff.rfl

theorem wp_append_log {line : List Char} {Q : Unit → Disk StoreFile → Prop} :
    wp (mapError Raised.other (appendLine noFaults .audit line)) Q E
        (Function.update disk .audit (some ((disk .audit).getD (.text [])))) ↔
      Q () (logged disk line) := by
  have hrun : mapError Raised.other (appendLine noFaults .audit line)
      (Function.update disk .audit (some ((disk .audit).getD (.text [])))) =
      .ok () (Function.update (Function.update disk .audit
        (some ((disk .audit).getD (.text [])))) .audit
        (some (((disk .audit).getD (.text [])).append (line ++ ['\n'])))) := by
    show EStateM.Result.ok () _ = _
    simp [Function.update_self]
  unfold wp logged
  rw [hrun, Function.update_idem]

theorem wp_append_of_not_admits {event : host.Dict} {Q : host.Dict → Disk StoreFile → Prop}
    (h : ∀ l chained line, ¬ Admits disk event l chained line) (hE : E disk) :
    wp (append_audit_event host event) Q E disk := by
  unfold append_audit_event
  dsimp only
  by_cases hid : python_json.truthy host.python (item event "event_id") = false
  · rw [if_pos hid, wp_bind, wp_throw]
    exact hE
  · rw [if_neg hid]
    simp only [wp_bind, wp_audit_events, wp_orRaise]
    rcases hfound : found host disk with _ | l
    · exact hE
    · dsimp only
      rcases hreport : checkChain host l with _ | r
      · exact hE
      · dsimp only
        by_cases hok : r.ok = false
        · rw [if_pos hok, wp_bind, wp_throw]
          exact hE
        · rw [if_neg hok]
          by_cases hnew : (l.any fun stored => python_json.eq host.python
              (item stored "event_id") (item event "event_id")) = true
          · rw [if_pos hnew, wp_bind, wp_throw]
            exact hE
          · rw [if_neg hnew]
            simp only [wp_bind, wp_orRaise]
            rcases hchained : chain_event host event (head host l) with _ | chained
            · exact hE
            · obtain ⟨line, hline⟩ := chain_event_dumps hchained
              exact absurd ⟨hfound, ⟨r, hreport, by simpa using hok⟩, by simpa using hid,
                by simpa using hnew, hchained, hline⟩ (h l chained line)

theorem wp_append_of_admits {event chained : host.Dict} {line : List Char}
    {Q : host.Dict → Disk StoreFile → Prop} (h : Admits disk event l chained line)
    (hleaf : leaf.Writes) (hhead : item chained "event_hash" = leaf.value)
    (hQ : ∀ d, Q chained d ↔ E d) :
    wp (append_audit_event host event) Q E disk ↔
      if Countable (l.length + 1) then
        match key host disk with
        | some key' => E (anchored host key' (l.length + 1) leaf (logged disk line))
        | none => E (logged disk line)
      else E (logged disk line) := by
  obtain ⟨hfound, ⟨r, hreport, hok⟩, hid, hnew, hchained, hline⟩ := h
  have hkey : key host (logged disk line) = key host disk := by
    apply persistence.key_congr
    unfold logged
    rw [Function.update_of_ne (by simp)]
  have hlength : (l ++ [chained]).length = l.length + 1 := by simp
  unfold append_audit_event
  dsimp only
  rw [if_neg (by simp [hid])]
  simp only [wp_bind, wp_audit_events, hfound, wp_orRaise, hreport]
  rw [if_neg (by simp [hok]), if_neg (by simp [hnew])]
  simp only [wp_bind, wp_orRaise, hchained, wp_ensure_log, hline, wp_append_log]
  refine (wp_write_audit_anchor (by rw [head_snoc, hhead]) hleaf).trans ?_
  rw [hkey, hlength]
  split
  · cases key host disk with
    | none => rfl
    | some key' =>
      dsimp only
      split
      · exact hQ _
      · rfl
  · rfl

/-! ### The files after an append -/

theorem key_logged (line : List Char) : key host (logged disk line) = key host disk := by
  apply persistence.key_congr
  unfold logged
  rw [Function.update_of_ne (by simp)]

theorem events_eq_some (h : events host disk = some l) :
    ((disk .audit).getD (.text [])).broken = false ∧ eventsOf host (logText disk) = some l := by
  unfold events at h
  split at h
  · cases h
  · rename_i hbroken
    exact ⟨by simpa using hbroken, h⟩

theorem logged_audit (h : events host disk = some l) (line : List Char) :
    logged disk line .audit = some (.text (logText disk ++ (line ++ ['\n']))) := by
  obtain ⟨hbroken, -⟩ := events_eq_some h
  unfold logged logText
  rw [Function.update_self, Content.append, if_neg (by simp [hbroken])]

theorem events_logged (h : events host disk = some l) (line : List Char) :
    events host (logged disk line) = eventsOf host (logText disk ++ (line ++ ['\n'])) := by
  unfold events
  rw [show logText (logged disk line) = logText disk ++ (line ++ ['\n']) by
    rw [logText, logged_audit h]; rfl, logged_audit h]
  rfl

theorem events_congr {disk' : Disk StoreFile} (h : disk .audit = disk' .audit) :
    events host disk = events host disk' := by
  unfold events logText
  rw [h]

/-- After anything but a blank tail an appended line cannot be read. -/
theorem events_logged_of_not_blank (h : events host disk = some l)
    (htail : ¬ persistence.BlankTail disk) {line inner : List Char} (hline : Printable line)
    (hbrace : line = '{' :: inner) : events host (logged disk line) = none := by
  rw [events_logged h, Option.eq_none_iff_forall_ne_some]
  intro l' hl'
  obtain ⟨-, last, -, hlast, -⟩ := eventsOf_eq_some_iff.mp (events_eq_some h).2
  obtain ⟨-, joined, -, hjoined, -⟩ :=
    (eventsOf_append_iff hline (by simp [hbrace])).mp hl'
  rw [hbrace, readLine_of_not_blank htail hlast] at hjoined
  cases hjoined

/-- A log that can be read after an append has one event more. -/
theorem length_events_logged {l' : List host.Dict} (h : events host disk = some l)
    {line inner : List Char} (hline : Printable line) (hbrace : line = '{' :: inner)
    (h' : events host (logged disk line) = some l') : l'.length = l.length + 1 := by
  have htail : persistence.BlankTail disk := by
    by_contra htail
    rw [events_logged_of_not_blank h htail hline hbrace] at h'
    cases h'
  rw [events_logged h] at h'
  obtain ⟨before, last, hbefore, hlast, rfl⟩ := eventsOf_eq_some_iff.mp (events_eq_some h).2
  obtain ⟨before', joined, hbefore', hjoined, rfl⟩ :=
    (eventsOf_append_iff hline (by simp [hbrace])).mp h'
  obtain rfl := Option.some.inj (hbefore.symm.trans hbefore')
  unfold readLine at hlast hjoined
  rw [if_pos (persistence.all_isSpace_strip htail)] at hlast
  rw [hbrace, if_neg (persistence.strip_brace _ _)] at hjoined
  obtain rfl := Option.some.inj hlast
  split at hjoined
  · obtain rfl := Option.some.inj hjoined
    simp
  · cases hjoined

/-- After a blank tail a record is read back. -/
theorem events_logged_of_blank (h : events host disk = some l) (htail : persistence.BlankTail disk)
    {fields : Fields} (hne : fields ≠ []) (hwrites : fields.Writes)
    (hsorted : sorted_map.Sorted (record (F := host.python.Float) fields)) :
    events host (logged disk (recordText json.compact fields)) = some (l ++ [record fields]) := by
  have hdumps : python_json.dumps host.python (.dict (record fields)) =
      some (recordText json.compact fields) := dumpsAs_record (List.Perm.refl _) hwrites hsorted
  obtain ⟨inner, hbrace⟩ := dumps_dict hdumps
  obtain ⟨before, last, hbefore, hlast, rfl⟩ := eventsOf_eq_some_iff.mp (events_eq_some h).2
  have hnil : last = [] := by
    unfold readLine at hlast
    rw [if_pos (persistence.all_isSpace_strip htail)] at hlast
    exact (Option.some.inj hlast).symm
  have hloads : python_json.loads host.python (persistence.tailOf (logText disk) ++
      (recordText json.compact fields ++ [])) = _ :=
    loads_recordText htail List.all_nil hne hwrites hsorted.nodup
  rw [List.append_nil] at hloads
  rw [events_logged h, eventsOf_append_iff (printable_dumps hdumps) (by simp [hbrace])]
  refine ⟨before, [record fields], hbefore, ?_, by rw [hnil, List.append_nil]⟩
  unfold readLine
  rw [hloads, hbrace, if_neg (persistence.strip_brace _ _)]

theorem key_anchored {key' : Bytes} (h : key host disk = some key') (n : Nat) :
    key host (anchored host key' n leaf disk) = some key' := by
  rw [← persistence.key_withKey h]
  apply persistence.key_congr
  unfold anchored
  rw [Function.update_of_ne (by simp), Function.update_of_ne (by simp)]

theorem anchored_anchor (key' : Bytes) (n : Nat) (leaf : Leaf) :
    anchored host key' n leaf disk .audit_anchor =
      some (.text (recordText json.pretty (anchorFields host key' n leaf) ++ ['\n'])) := by
  unfold anchored
  rw [Function.update_of_ne (by simp), Function.update_self]

/-- An anchor is read back as its record. -/
theorem loads_anchor (hleaf : leaf.Writes) {n : Nat} (hcount : Countable n) (key' : Bytes) :
    python_json.loads host.python (universal_newlines
        (recordText json.pretty (anchorFields host key' n leaf) ++ ['\n'])) =
      .value (.dict (record (anchorFields host key' n leaf))) := by
  have hsorted := @sorted_anchorFields host key' n leaf
  have hwrites := @writes_anchorFields host leaf n hleaf hcount key'
  have hdumps : python_json.dumps_indented host.python
      (.dict (record (anchorFields host key' n leaf))) =
      some (recordText json.pretty (anchorFields host key' n leaf)) :=
    dumpsAs_record (List.Perm.refl _) hwrites hsorted
  have hreturn : '\r' ∉ recordText json.pretty (anchorFields host key' n leaf) ++ ['\n'] := by
    rw [List.mem_append, not_or]
    exact ⟨return_not_mem_dumps_indented hdumps, by simp⟩
  rw [persistence.universal_newlines_of_no_return hreturn]
  exact @loads_recordText host.python json.pretty _ [] ['\n'] rfl rfl (by simp [anchorFields])
    hwrites hsorted.nodup

/-- An anchor that was written is that of its events. -/
theorem anchorOk_anchored {key' : Bytes} (hkey : key host disk = some key')
    (hhead : head host l = leaf.value) (hleaf : leaf.Writes) (hcount : Countable l.length) :
    AnchorOk host (anchored host key' l.length leaf disk) l := by
  unfold AnchorOk
  rw [anchored_anchor]
  refine ⟨rfl, .dict (record (anchorFields host key' l.length leaf)), messageOf l.length leaf, key',
    loads_anchor hleaf hcount key', ?_, key_anchored hkey _, ?_⟩
  · rw [dumps_anchorBody hhead hleaf, if_pos hcount]
  · obtain ⟨fields, hrecord, hperm⟩ := anchorRecord_perm hhead key'
    rw [hrecord]
    refine eq_record hperm.symm ?_
    rw [(hperm.map _).nodup_iff]
    simp [anchorFields, sortedBody]

theorem anchored_audit (key' : Bytes) (n : Nat) :
    anchored host key' n leaf disk .audit = disk .audit := by
  unfold anchored persistence.withKey
  rw [Function.update_of_ne (by simp), Function.update_of_ne (by simp)]
  cases disk .audit_anchor_key with
  | none =>
    dsimp only
    rw [Function.update_of_ne (by simp)]
  | some content => rfl

theorem after_of_wp {α : Type} {x : persistence.StoreM α} {P : Disk StoreFile → Prop}
    (h : wp x (fun _ d => P d) P disk) : P (files.after x disk) := by
  unfold wp at h
  unfold files.after
  split at h
  · exact h
  · exact h

/-- An append leaves the files as they are, or it writes the line, and then the anchor where the
events can be counted and the key can be read. -/
theorem after_append_cases (event : host.Dict) :
    files.after (append_audit_event host event) disk = disk ∨
      ∃ l chained line, Admits disk event l chained line ∧
        ((files.after (append_audit_event host event) disk = logged disk line ∧
            (¬ Countable (l.length + 1) ∨ key host disk = none)) ∨
          ∃ key' leaf, Countable (l.length + 1) ∧ key host disk = some key' ∧
            leaf.Writes ∧ item chained "event_hash" = leaf.value ∧
            files.after (append_audit_event host event) disk =
              anchored host key' (l.length + 1) leaf (logged disk line)) := by
  by_cases hadmits : ∃ l chained line, Admits disk event l chained line
  · obtain ⟨l, chained, line, h⟩ := hadmits
    obtain ⟨text, htext⟩ := item_chain_event_hash h.chains
    have hhead : item chained "event_hash" = (Leaf.text (hashText host text)).value := htext
    have hleaf : (Leaf.text (hashText host text)).Writes := plain_tagged _
    have hrun := fun target => wp_append_of_admits (E := (· = target)) (Q := fun _ => (· = target))
      h hleaf hhead fun _ => Iff.rfl
    refine .inr ⟨l, chained, line, h, ?_⟩
    by_cases hcount : Countable (l.length + 1)
    · rcases hkey : key host disk with _ | key'
      · refine .inl ⟨after_of_wp ((hrun _).mpr ?_), .inr rfl⟩
        rw [if_pos hcount, hkey]
      · refine .inr ⟨key', _, hcount, rfl, hleaf, hhead, after_of_wp ((hrun _).mpr ?_)⟩
        rw [if_pos hcount, hkey]
    · refine .inl ⟨after_of_wp ((hrun _).mpr ?_), .inl hcount⟩
      rw [if_neg hcount]
  · refine .inl (after_of_wp (P := (· = disk))
      (wp_append_of_not_admits (fun l chained line h => ?_) rfl))
    exact hadmits ⟨l, chained, line, h⟩

theorem events_of_found (h : found host disk = some l) : events host disk = some l :=
  (Option.filter_eq_some_iff.mp h).1

theorem leaf_of_verified (h : Verified l) :
    ∃ leaf : Leaf, leaf.Writes ∧ head host l = leaf.value := by
  rcases head_of_verified h with h | ⟨text, h⟩
  · exact ⟨.null, trivial, h⟩
  · exact ⟨.text _, plain_tagged _, h⟩

end store

/-! ## Tampering that an append hides -/

section laundering

variable {disk disk' : Disk StoreFile} {l : List host.Dict}

/-- The files that an append makes good whatever their anchor says: an append finds events whose
chain verifies and that can be counted, nothing but JSON spaces stands after the last line break,
and the key can be read. -/
structure Launderable (host : Host) (disk : Disk StoreFile) : Prop where
  sound : ∃ l, found host disk = some l ∧ Verified l ∧ Countable (l.length + 1)
  tail : persistence.BlankTail disk
  key : (key host disk).isSome = true

/-- The files that calls of append can leave, whether they raise or not. -/
inductive Reaches (host : Host) (disk : Disk StoreFile) : Disk StoreFile → Prop
  | refl : Reaches host disk disk
  | append {disk' : Disk StoreFile} {event : host.Dict} : Reaches host disk disk' →
      DistinctKeys (.dict event) →
      Reaches host disk (files.after (append_audit_event host event) disk')

theorem not_ok_of_not_read (h : events host disk = none) : ¬ Ok host disk := by
  rw [ok_iff]
  rintro ⟨l, hl, -⟩
  rw [h] at hl
  cases hl

theorem not_launderable_of_not_read (h : events host disk = none) : ¬ Launderable host disk := by
  intro hlaunder
  obtain ⟨l, hl, -⟩ := hlaunder.sound
  rw [events_of_found hl] at h
  cases h

/-- A line without its anchor: the anchor can be made for it neither now nor later. -/
theorem line_only_keeps_bad {line inner : List Char} (h : events host disk = some l)
    (hline : Printable line) (hbrace : line = '{' :: inner)
    (hstop : ¬ Countable (l.length + 1) ∨ key host disk = none) :
    ¬ Ok host (logged disk line) ∧ ¬ Launderable host (logged disk line) := by
  constructor
  · rw [ok_iff]
    rintro ⟨l', hl', hverified, hanchor⟩
    have hlength := length_events_logged h hline hbrace hl'
    unfold AnchorOk at hanchor
    split at hanchor
    · simp [hanchor] at hlength
    · obtain ⟨-, -, message, key', -, hmessage, hkey, -⟩ := hanchor
      rcases hstop with hcount | hnone
      · obtain ⟨leaf, hleaf, hhead⟩ := leaf_of_verified hverified
        rw [dumps_anchorBody hhead hleaf, hlength, if_neg hcount] at hmessage
        cases hmessage
      · rw [key_logged, hnone] at hkey
        cases hkey
  · intro hlaunder
    rcases hstop with hcount | hnone
    · obtain ⟨l', hl', -, hcount'⟩ := hlaunder.sound
      rw [length_events_logged h hline hbrace (events_of_found hl')] at hcount'
      exact hcount (Nat.lt_of_succ_lt hcount')
    · have hkey := hlaunder.key
      rw [key_logged, hnone] at hkey
      cases hkey

/-- No append makes bad files good when they cannot be laundered, nor lets them be laundered
later. -/
theorem append_keeps_bad (event : host.Dict) (hbad : ¬ Ok host disk)
    (h : ¬ Launderable host disk) :
    ¬ Ok host (files.after (append_audit_event host event) disk) ∧
      ¬ Launderable host (files.after (append_audit_event host event) disk) := by
  rcases @after_append_cases host disk event with
    hsame | ⟨l, chained, line, hl, ⟨hline, hstop⟩ | ⟨key', leaf, hcount, hkey, -, -, hanchored⟩⟩
  · rw [hsame]
    exact ⟨hbad, h⟩
  · obtain ⟨inner, hbrace⟩ := dumps_dict hl.writes
    rw [hline]
    exact line_only_keeps_bad (events_of_found hl.found) (printable_dumps hl.writes) hbrace hstop
  · -- The line has joined a tail that is not blank, so the log can no longer be read.
    obtain ⟨inner, hbrace⟩ := dumps_dict hl.writes
    have htail : ¬ persistence.BlankTail disk := fun htail =>
      h ⟨⟨l, hl.found, hl.verified, hcount⟩, htail, by rw [hkey]; rfl⟩
    have hevents : events host (files.after (append_audit_event host event) disk) = none := by
      rw [hanchored, events_congr (anchored_audit key' (l.length + 1))]
      exact events_logged_of_not_blank (events_of_found hl.found) htail
        (printable_dumps hl.writes) hbrace
    exact ⟨not_ok_of_not_read hevents, not_launderable_of_not_read hevents⟩

theorem reaches_keeps_bad (hbad : ¬ Ok host disk) (h : ¬ Launderable host disk)
    (hreach : Reaches host disk disk') : ¬ Ok host disk' ∧ ¬ Launderable host disk' := by
  induction hreach with
  | refl => exact ⟨hbad, h⟩
  | append _ _ ih => exact append_keeps_bad _ ih.1 ih.2

/-- There is always a new id: one that is longer than all. -/
theorem exists_new_id (l : List host.Dict) : ∃ s : String, s ≠ "" ∧ Plain s ∧
    ∀ stored ∈ l, item stored "event_id" ≠ .str (str s) := by
  have hbound : ∃ m, ∀ stored ∈ l, ∀ s, item stored "event_id" = .str s → s.length ≤ m := by
    induction l with
    | nil => exact ⟨0, by simp⟩
    | cons stored l ih =>
      obtain ⟨m, hm⟩ := ih
      have hnew : ∃ k, ∀ s, item stored "event_id" = .str s → s.length ≤ k := by
        cases item stored "event_id" with
        | str s => exact ⟨s.length, by simp⟩
        | _ => exact ⟨0, by simp⟩
      obtain ⟨k, hk⟩ := hnew
      refine ⟨max k m, fun x hx s hs => ?_⟩
      rcases List.mem_cons.mp hx with rfl | hx
      · exact le_trans (hk s hs) (le_max_left k m)
      · exact le_trans (hm x hx s hs) (le_max_right k m)
  obtain ⟨m, hm⟩ := hbound
  have hlength : (str (String.ofList (List.replicate (m + 1) 'a'))).length = m + 1 := by
    simp [str]
  refine ⟨String.ofList (List.replicate (m + 1) 'a'), ?_, ?_, ?_⟩
  · intro hempty
    rw [hempty] at hlength
    simp [str] at hlength
  · intro c hc
    rw [String.toList_ofList, List.mem_replicate] at hc
    rw [hc.2]
    decide
  · intro stored hstored hid
    have := hm stored hstored _ hid
    omega

theorem admits_idFields {leaf : Leaf} {s : String} (hfound : found host disk = some l)
    (hverified : Verified l) (hhead : head host l = leaf.value) (hleaf : leaf.Writes)
    (hs : Plain s) (hne : s ≠ "") (hnew : ∀ stored ∈ l, item stored "event_id" ≠ .str (str s)) :
    Admits disk (record (idFields s)) l (record (chainedFields host s leaf))
      (recordText json.compact (storedFields host s leaf)) := by
  have hid : item (record (F := host.python.Float) (idFields s)) "event_id" = .str (str s) := by
    rw [item_record]
    simp [idFields, sorted_map.get_cons, Leaf.value]
  refine ⟨hfound, hverified, ?_, ?_, ?_, ?_⟩
  · rw [hid]
    simpa [python_json.truthy, str] using hne
  · rw [hid, List.any_eq_false]
    intro stored hstored
    rw [eq_str_iff]
    exact hnew stored hstored
  · rw [hhead]
    exact chain_event_record hs hleaf (.inl rfl)
  · exact dumpsAs_record List.perm_append_comm (writes_storedFields hs hleaf) sorted_storedFields

/-- An append of a new id goes through on files that can be laundered, and leaves a good log. -/
theorem exists_append_ok (h : Launderable host disk) : ∃ event : host.Dict,
    DistinctKeys (.dict event) ∧ Ok host (files.after (append_audit_event host event) disk) := by
  obtain ⟨⟨l, hfound, hverified, hcount⟩, htail, hkey⟩ := h
  obtain ⟨key', hkey⟩ := Option.isSome_iff_exists.mp hkey
  obtain ⟨s, hne, hs, hnew⟩ := exists_new_id l
  obtain ⟨leaf, hleaf, hhead⟩ := leaf_of_verified hverified
  have hadmits := admits_idFields hfound hverified hhead hleaf hs hne hnew
  have hhash : (Leaf.text (hashOf host s leaf)).Writes := plain_tagged _
  have hlast : ∀ fields, fields = chainedFields host s leaf ∨ fields = storedFields host s leaf →
      item (record (F := host.python.Float) fields) "event_hash" =
        (Leaf.text (hashOf host s leaf)).value := by
    rintro fields (rfl | rfl) <;>
      simp [item_record, chainedFields, storedFields, hashedFields, sorted_map.get_cons]
  refine ⟨record (idFields s), distinctKeys_record (by simp [idFields]), after_of_wp ?_⟩
  rw [wp_append_of_admits hadmits hhash (hlast _ (.inl rfl)) fun _ => Iff.rfl, if_pos hcount, hkey]
  have hlength : (l ++ [record (storedFields host s leaf)]).length = l.length + 1 := by simp
  refine ok_iff.mpr ⟨l ++ [record (storedFields host s leaf)], ?_, ?_, ?_⟩
  · rw [events_congr (anchored_audit key' (l.length + 1))]
    exact events_logged_of_blank (events_of_found hfound) htail (by simp [storedFields])
      (writes_storedFields hs hleaf) sorted_storedFields
  · refine verified_snoc.mpr ⟨hverified, ?_⟩
    rw [hhead]
    refine links_storedFields hs hne hleaf fun v hv => ?_
    obtain ⟨stored, hstored, rfl⟩ := List.mem_map.mp hv
    exact hnew stored hstored
  · rw [← hlength]
    refine anchorOk_anchored ((key_logged _).trans hkey) ?_ hhash (by rwa [hlength])
    rw [head_snoc, hlast _ (.inr rfl)]

/-- Files that do not pass the check never pass it later exactly when they cannot be laundered. -/
theorem stays_bad_iff (host : Host) (disk : Disk StoreFile) (hbad : ¬ Ok host disk) :
    (∀ disk', Reaches host disk disk' → ¬ Ok host disk') ↔ ¬ Launderable host disk := by
  constructor
  · intro hstays hlaunder
    obtain ⟨event, hevent, hok⟩ := exists_append_ok hlaunder
    exact hstays _ (.append .refl hevent) hok
  · intro h disk' hreach
    exact (reaches_keeps_bad hbad h hreach).1

/-! ### A log that was cut off -/

/-- An interpreter with one float. -/
def plainPython : Interpreter where
  Float := Unit
  parse_float _ := ()
  nan := ()
  inf := ()
  neg_inf := ()
  repr _ := "0.0".toList
  repr_chars _ := by decide
  is_zero _ := true
  integer _ := some 0
  eq_float _ _ := true
  same_float _ _ := true
  loads_depth := 900
  dumps_depth := 900
  copy_depth := 400
  loads_pos := by decide
  dumps_pos := by decide
  copy_pos := by decide

/-- A host with the real digest and a key of zeros. -/
def digestHost : Host where
  floats := ⟨some, fun _ => none⟩
  sha256 := fips.digest
  str _ := ""
  json_msg _ := ""
  json_error _ := ""
  fromhex_error _ := ""
  token := List.replicate 32 0
  python := plainPython
  str_of _ := ""

/-- The files with one event, and then without its line. -/
def cutLog (host : Host) : Disk StoreFile :=
  Function.update (files.after (append_audit_event host (record (idFields "audit-1")))
    fun _ => none) .audit (some (.text []))

theorem found_nil (h : events host disk = some []) : found host disk = some [] := by
  have hcopies : copies host.python (.list []) = true := decide_eq_true host.python.copy_pos
  unfold found
  rw [h, Option.filter_some]
  exact if_pos hcopies

theorem countable_one : Countable 1 := Nat.one_lt_pow (by decide) (by decide)

/-- The first event is written with its anchor. -/
theorem after_first (host : Host) :
    files.after (append_audit_event host (record (idFields "audit-1"))) (fun _ => none) =
      anchored host host.token 1 (.text (hashOf host "audit-1" .null))
        (logged (fun _ => none) (recordText json.compact (storedFields host "audit-1" .null))) := by
  have hplain : Plain "audit-1" := by decide
  have hhash : (Leaf.text (hashOf host "audit-1" .null)).Writes := plain_tagged _
  have hadmits := @admits_idFields host (fun _ => none) [] .null "audit-1" (found_nil rfl)
    verified_nil rfl trivial hplain (by simp) (by simp)
  have hhead : item (record (F := host.python.Float) (chainedFields host "audit-1" .null))
      "event_hash" = (Leaf.text (hashOf host "audit-1" .null)).value := by
    simp [item_record, chainedFields, hashedFields, sorted_map.get_cons]
  have hcount : Countable (([] : List host.Dict).length + 1) := countable_one
  refine after_of_wp (P := (· = _)) ?_
  rw [wp_append_of_admits hadmits hhash hhead fun _ => Iff.rfl, if_pos hcount]
  rfl

theorem events_cutLog : events host (cutLog host) = some [] := by
  unfold events logText cutLog
  rw [Function.update_self]
  rfl

theorem get_of_eq_dict {python : Interpreter} {items items' : PyDict python.Float} {k : Str}
    {v : PyValue python.Float} (h : python_json.eq python (.dict items) (.dict items') = true)
    (hmem : (k, v) ∈ items) : ∃ w, sorted_map.get k items' = some w ∧ same python v w = true := by
  have hfields : sameFields python items items' = true := by
    have heq : python_json.eq python (.dict items) (.dict items') =
        same python (.dict items) (.dict items') := rfl
    rw [heq, same, Bool.and_eq_true] at h
    exact h.2
  clear h
  induction items with
  | nil => exact absurd hmem List.not_mem_nil
  | cons e items ih =>
    rw [sameFields, Bool.and_eq_true] at hfields
    rcases List.mem_cons.mp hmem with rfl | hmem
    · have hfirst := hfields.1
      split at hfirst
      · rename_i w hw
        exact ⟨w, hw, hfirst⟩
      · cases hfirst
    · exact ih hmem hfields.2

/-- The anchor of a log with an event is none of an empty log. -/
theorem not_ok_cutLog (host : Host) : ¬ Ok host (cutLog host) := by
  rw [ok_iff]
  rintro ⟨l, hl, -, hanchor⟩
  obtain rfl := Option.some.inj (events_cutLog.symm.trans hl)
  have hhash : (Leaf.text (hashOf host "audit-1" .null)).Writes := plain_tagged _
  have hfile : cutLog host .audit_anchor = some (.text (recordText json.pretty (anchorFields host
      host.token 1 (.text (hashOf host "audit-1" .null))) ++ ['\n'])) := by
    unfold cutLog
    rw [Function.update_of_ne (by simp), after_first, anchored_anchor]
  unfold AnchorOk at hanchor
  rw [hfile] at hanchor
  obtain ⟨-, stored, message, key', hstored, -, -, heq⟩ := hanchor
  obtain rfl := Loaded.value.inj ((loads_anchor hhash countable_one host.token).symm.trans hstored)
  have hmem : (str "event_count", PyValue.int 1) ∈ record (F := host.python.Float)
      (anchorFields host host.token 1 (.text (hashOf host "audit-1" .null))) := by
    simp [record, anchorFields, sortedBody, Leaf.value]
  obtain ⟨w, hw, hsame⟩ := get_of_eq_dict heq hmem
  have hzero : sorted_map.get (str "event_count") (anchorRecord host key' [] message) =
      some (.int 0) := by
    simp [anchorRecord, anchorBody, sorted_map.get_cons, str_inj]
  rw [hzero, Option.some.injEq] at hw
  rw [← hw] at hsame
  simp [same, python_json.asNumber, sameNumber] at hsame

theorem launderable_cutLog (host : Host) : Launderable host (cutLog host) := by
  refine ⟨⟨[], found_nil events_cutLog, verified_nil, countable_one⟩, ?_, ?_⟩
  · unfold persistence.BlankTail logText cutLog
    rw [Function.update_self]
    rfl
  · have hkey : key host (cutLog host) = some host.token := by
      rw [← @key_anchored host (logged (fun _ => none) (recordText json.compact
        (storedFields host "audit-1" .null))) (.text (hashOf host "audit-1" .null)) host.token
        (key_logged _) 1, ← after_first]
      apply persistence.key_congr
      unfold cutLog
      rw [Function.update_of_ne (by simp)]
    rw [hkey]
    rfl

theorem stays_bad_cutLog :
    (∀ disk', Reaches digestHost (cutLog digestHost) disk' → ¬ Ok digestHost disk') ↔
      ¬ Launderable digestHost (cutLog digestHost) :=
  stays_bad_iff digestHost (cutLog digestHost) (not_ok_cutLog digestHost)

/-- A log that was cut off is found out, and is good again after one append. -/
theorem cut_log_is_laundered :
    ¬ Ok digestHost (cutLog digestHost) ∧
      ∃ disk', Reaches digestHost (cutLog digestHost) disk' ∧ Ok digestHost disk' := by
  obtain ⟨event, hevent, hok⟩ := exists_append_ok (launderable_cutLog digestHost)
  exact ⟨not_ok_cutLog digestHost, _, .append .refl hevent, hok⟩

end laundering

end shell_core.tampered_log
