-- The directory of the store as a whole. What a directory holds is one abstract value, and
-- each function of the store is an operation on it, whatever file operations fail.
import GuiShell.Broker.ReplayNonces

open json serde_json broker_audit files json_lines

namespace store

variable {crates : Crates} {faults : Faults StoreFile} {disk : Disk StoreFile}

/-! ## What a directory holds -/

/-- The key is none until it is made, and the session until it is written. -/
structure Contents (crates : Crates) where
  key : Option Bytes
  log : BrokerAuditLog crates.sha256
  records : List ReplayNonceRecord
  session : Option String

/-- A directory with nothing in it. -/
def Contents.fresh : Contents crates := ⟨none, .default, [], none⟩

def KeyFile (content : Option Content) : Option Bytes → Prop
  | none => content = none
  | some key => ∃ raw, content = some (.text raw) ∧ hex.readDigits (trim raw) = some key

/-- An empty log needs no anchor. -/
def AnchorFile (content : Option Content) (c : Contents crates) : Prop :=
  (c.log.events = [] ∧ content = none) ∨ ∃ key, c.key = some key ∧
    content = some (.text (anchorText (build_audit_anchor crates.sha256 ⟨key⟩ c.log)))

structure Holds (disk : Disk StoreFile) (c : Contents crates) : Prop where
  key_file : KeyFile (disk .audit_anchor_key) c.key
  audit_file : (disk .audit).getD (.text []) = .text (eventCodec.text c.log.events)
  anchor_file : AnchorFile (disk .audit_anchor) c
  replay_file : (disk .replay).getD (.text []) = .text (nonceCodec.text c.records)
  session_file : disk .session = c.session.map fun id => .text (sessionText id)

theorem holds_fresh : Holds (fun _ => none) (.fresh : Contents crates) :=
  ⟨rfl, rfl, .inl ⟨rfl, rfl⟩, rfl, rfl⟩

/-- Nothing in the directory keeps it from being opened. -/
def Contents.Loads (c : Contents crates) : Prop :=
  (∀ record ∈ c.records, ¬ IsBlank record.nonce) ∧ ∀ id ∈ c.session, ¬ IsBlank id

theorem loads_fresh : (.fresh : Contents crates).Loads :=
  ⟨fun _ h => absurd h List.not_mem_nil, fun _ h => by cases h⟩

/-! ## Reading and writing through a temporary file -/

theorem ne_noFaults {op : Op} {path : StoreFile} (h : faults op path ≠ none) :
    faults ≠ noFaults := by
  rintro rfl
  exact h rfl

theorem wp_atomic_write {path : StoreFile} {chars : List Char} {Q : Unit → Disk StoreFile → Prop}
    {E : Disk StoreFile → Prop}
    (hok : faults .write path.temporary_path = none → faults .rename path = none →
      Q () (Function.update (Function.update (Function.update disk path.temporary_path
        (some (.text chars))) path (some (.text chars))) path.temporary_path none))
    (hwrite : faults .write path.temporary_path ≠ none → E disk)
    (hrename : faults .rename path ≠ none →
      E (Function.update disk path.temporary_path (some (.text chars)))) :
    wp (atomic_write faults path chars) Q E disk := by
  rw [atomic_write, wp_bind]
  refine wp_write (fun hw => ?_) hwrite
  exact wp_rename (Function.update_self ..) (fun hr => hok hw hr) hrename

theorem auditLogOf_text (log : BrokerAuditLog crates.sha256) :
    auditLogOf crates (.text (eventCodec.text log.events)) = .ok log := by
  have hread : readEvents crates (.text (eventCodec.text log.events)) = .ok log.events := by
    rw [readEvents, foldLines_text, foldRecords_collect, List.nil_append]
  unfold auditLogOf
  rw [hread]
  show (BrokerAuditLog.from_verified_events crates.sha256 log.events).mapError _ = _
  rw [BrokerAuditLog.from_verified_events_events]
  rfl

theorem load_audit_log.spec (log : BrokerAuditLog crates.sha256)
    {Q : BrokerAuditLog crates.sha256 → Disk StoreFile → Prop} {E : Disk StoreFile → Prop}
    (hfile : disk .audit = some (.text (eventCodec.text log.events)))
    (hok : faults .read .audit = none → Q log disk) (hread : faults .read .audit ≠ none → E disk) :
    wp (load_audit_log crates faults) Q E disk := by
  rw [load_audit_log, wp_bind, wp_mapError]
  refine wp_read hfile (fun h => ?_) hread
  rw [auditLogOf_text, wp_outcome_ok]
  exact hok h

theorem load_replay_nonces.spec {records : List ReplayNonceRecord} {now : I64}
    {Q : SortedMap String I64 → Disk StoreFile → Prop} {E : Disk StoreFile → Prop}
    (hfile : disk .replay = some (.text (nonceCodec.text records)))
    (hok : faults .read .replay = none → (∀ record ∈ records, ¬ IsBlank record.nonce) →
      Q (loadedNonces now records) disk)
    (hread : faults .read .replay ≠ none → E disk)
    (hblank : (∃ record ∈ records, IsBlank record.nonce) → E disk) :
    wp (load_replay_nonces crates faults now) Q E disk := by
  rw [load_replay_nonces, wp_bind, wp_mapError]
  refine wp_read hfile (fun h => ?_) hread
  by_cases hb : ∃ record ∈ records, IsBlank record.nonce
  · obtain ⟨e, he⟩ := replayNoncesOf_text_blank crates now hb
    rw [he, wp_outcome_error]
    exact hblank hb
  · have hnone : ∀ record ∈ records, ¬ IsBlank record.nonce := fun r hr hrb => hb ⟨r, hr, hrb⟩
    rw [replayNoncesOf_text hnone, wp_outcome_ok]
    exact hok h hnone

/-! ## The functions of the store -/

/-- A key file that was written reads as its key. -/
theorem keyFile_digits (key : Bytes) : KeyFile (some (.text (hex.digits key))) (some key) := by
  refine ⟨hex.digits key, rfl, ?_⟩
  have hdigit : ∀ n < 16, isWhitespace (hex.digit n) = false := by decide
  have hspace : ∀ c ∈ hex.digits key, isWhitespace c = false := by
    intro c hc
    obtain ⟨n, hn, rfl⟩ := hex.mem_digits hc
    exact hdigit n hn
  rw [trim_eq_self hspace, hex.readDigits_digits]

/-- A directory with no key has no anchor yet, so any key can be made. -/
theorem Holds.make_key {c : Contents crates} {key : Bytes} {disk' : Disk StoreFile}
    (h : Holds disk c) (hnone : c.key = none)
    (hfile : KeyFile (disk' .audit_anchor_key) (some key))
    (hframe : ∀ path, path ≠ .audit_anchor_key → disk' path = disk path) :
    Holds disk' { c with key := some key } := by
  have hempty : c.log.events = [] ∧ disk .audit_anchor = none := by
    rcases h.anchor_file with he | ⟨key', hk, _⟩
    · exact he
    · rw [hnone] at hk
      cases hk
  refine ⟨hfile, ?_, .inl ⟨hempty.1, ?_⟩, ?_, ?_⟩
  · rw [hframe _ (by decide)]
    exact h.audit_file
  · rw [hframe _ (by decide)]
    exact hempty.2
  · rw [hframe _ (by decide)]
    exact h.replay_file
  · rw [hframe _ (by decide)]
    exact h.session_file

theorem load_or_create_anchor_key.read {key : Bytes}
    {random : Except String { key : Bytes // key.length = 32 }} {Q : Bytes → Disk StoreFile → Prop}
    {E : Disk StoreFile → Prop} (hfile : KeyFile (disk .audit_anchor_key) (some key))
    (hok : Q key disk) (hread : faults .read .audit_anchor_key ≠ none → E disk) :
    wp (load_or_create_anchor_key crates faults random) Q E disk := by
  obtain ⟨raw, hraw, hdigits⟩ := hfile
  rw [load_or_create_anchor_key, wp_bind, wp_fileExists, hraw, Option.isSome_some, if_pos rfl,
    wp_bind, wp_mapError]
  refine wp_readToString hraw (fun _ => ?_) hread
  rw [hdigits]
  exact hok

/-- A failure on the way leaves the directory as it was, or with a key. -/
theorem load_or_create_anchor_key.spec {c : Contents crates}
    {random : Except String { key : Bytes // key.length = 32 }} (h : Holds disk c) :
    wp (load_or_create_anchor_key crates faults random)
      (fun key d => Holds d { c with key := some key })
      (fun d => (∃ key, Holds d { c with key }) ∧
        (faults ≠ noFaults ∨ ∃ e, random = .error e)) disk := by
  obtain ⟨key, log, records, session⟩ := c
  cases key with
  | some key =>
    exact load_or_create_anchor_key.read h.key_file h fun hf => ⟨⟨_, h⟩, .inl (ne_noFaults hf)⟩
  | none =>
    have hnone : disk .audit_anchor_key = none := h.key_file
    rw [load_or_create_anchor_key, wp_bind, wp_fileExists, hnone, Option.isSome_none,
      if_neg Bool.false_ne_true, wp_bind, wp_mapError]
    cases random with
    | error e =>
      rw [wp_outcome_error]
      exact ⟨⟨_, h⟩, .inr ⟨e, rfl⟩⟩
    | ok key =>
      rw [wp_outcome_ok, wp_bind, wp_mapError]
      refine wp_create (fun _ => ?_) fun hf => ⟨⟨_, h⟩, .inl (ne_noFaults hf)⟩
      rw [wp_bind, wp_mapError]
      refine wp_write (fun _ => ?_) fun hf => ⟨⟨some [], ?_⟩, .inl (ne_noFaults hf)⟩
      · -- The key is in its file, whether the sync succeeds or not.
        have hwritten : Holds (Function.update (Function.update disk .audit_anchor_key
            (some (.text []))) .audit_anchor_key (some (.text (hex.digits key.val))))
            (⟨some key.val, log, records, session⟩ : Contents crates) :=
          h.make_key rfl (keyFile_digits key.val) fun path hp => by
            rw [Function.update_of_ne hp, Function.update_of_ne hp]
        rw [wp_bind, wp_mapError]
        exact wp_attempt (fun _ => hwritten) fun hf => ⟨⟨_, hwritten⟩, .inl (ne_noFaults hf)⟩
      · -- The empty file reads as the empty key.
        exact h.make_key rfl ⟨[], rfl, rfl⟩ fun path hp => Function.update_of_ne hp ..

theorem parse_anchorText (store : BrokerPersistentStore) (log : BrokerAuditLog crates.sha256) :
    (parse (.ofList (anchorText (build_audit_anchor crates.sha256 store log)))).bind decodeAnchor =
      some (build_audit_anchor crates.sha256 store log) := by
  rw [anchorText, parse_print]
  exact decodeAnchor_anchorValue _ rfl

theorem verify_audit_anchor.spec {c : Contents crates} {store : BrokerPersistentStore}
    {Q : Unit → Disk StoreFile → Prop} {E : Disk StoreFile → Prop}
    (hfile : AnchorFile (disk .audit_anchor) c) (hkey : c.key = some store.audit_anchor_key)
    (hok : Q () disk) (hread : faults .read .audit_anchor ≠ none → E disk) :
    wp (verify_audit_anchor crates faults store c.log) Q E disk := by
  rw [verify_audit_anchor, wp_bind, wp_fileExists]
  rcases hfile with ⟨hempty, hnone⟩ | ⟨key, hk, hsome⟩
  · rw [hnone, Option.isSome_none, if_neg Bool.false_ne_true, if_pos hempty]
    exact hok
  · have hstore : store = ⟨key⟩ := by
      cases store
      rw [hkey] at hk
      cases hk
      rfl
    rw [hsome, Option.isSome_some, if_pos rfl, wp_bind, wp_mapError]
    refine wp_readToString hsome (fun _ => ?_) hread
    rw [hstore, parse_anchorText]
    dsimp only
    rw [if_pos rfl]
    exact hok

theorem load_existing_session_if_present.spec {session : Option String}
    {Q : Unit → Disk StoreFile → Prop} {E : Disk StoreFile → Prop}
    (hfile : disk .session = session.map fun id => .text (sessionText id))
    (hok : (∀ id ∈ session, ¬ IsBlank id) → Q () disk)
    (hread : faults .read .session ≠ none → E disk)
    (hblank : (∃ id ∈ session, IsBlank id) → E disk) :
    wp (load_existing_session_if_present crates faults) Q E disk := by
  rw [load_existing_session_if_present, wp_bind, wp_fileExists]
  cases session with
  | none =>
    rw [hfile, Option.map_none, Option.isSome_none, if_neg Bool.false_ne_true]
    exact hok (by simp)
  | some id =>
    rw [Option.map_some] at hfile
    rw [hfile, Option.isSome_some, if_pos rfl, wp_bind, wp_mapError]
    refine wp_readToString hfile (fun _ => ?_) hread
    have htext : trim (sessionText id) ≠ [] := by
      rw [ne_eq, trim_eq_nil_iff, List.all_eq_true]
      intro hall
      exact absurd (hall '{' List.mem_cons_self) (by decide)
    have hparse : (parse (.ofList (sessionText id))).bind decodeSession =
        some (sessionRecord id) := by
      rw [sessionText, parse_print]
      rfl
    rw [if_neg htext, hparse]
    dsimp only
    by_cases hb : IsBlank id
    · rw [if_pos (.inl hb)]
      exact hblank ⟨id, rfl, hb⟩
    · rw [if_neg]
      · exact hok (by simpa using hb)
      · rintro (h | h)
        · exact hb h
        · exact h rfl

theorem Holds.ensure_audit {c : Contents crates} (h : Holds disk c) :
    Holds (Function.update disk .audit (some ((disk .audit).getD (.text [])))) c :=
  ⟨h.key_file, h.audit_file, h.anchor_file, h.replay_file, h.session_file⟩

theorem Holds.ensure_replay {c : Contents crates} (h : Holds disk c) :
    Holds (Function.update disk .replay (some ((disk .replay).getD (.text [])))) c :=
  ⟨h.key_file, h.audit_file, h.anchor_file, h.replay_file, h.session_file⟩

/-- The temporary files hold nothing that counts. -/
theorem Holds.temporary {c : Contents crates} (h : Holds disk c) {path : StoreFile}
    (hpath : path = .audit_anchor ∨ path = .replay ∨ path = .session) (content : Option Content) :
    Holds (Function.update disk path.temporary_path content) c := by
  rcases hpath with rfl | rfl | rfl <;>
    exact ⟨h.key_file, h.audit_file, h.anchor_file, h.replay_file, h.session_file⟩

theorem compact_replay_nonces.spec {c : Contents crates} {nonces : SortedMap String I64}
    {Q : Unit → Disk StoreFile → Prop} {E : Disk StoreFile → Prop} (h : Holds disk c)
    (hok : ∀ d, Holds d { c with records := compactRecords nonces } → Q () d)
    (hfail : ∀ d, Holds d c → faults ≠ noFaults → E d) :
    wp (compact_replay_nonces faults nonces) Q E disk := by
  rw [compact_replay_nonces, wp_mapError]
  refine wp_atomic_write (fun _ _ => hok _ ?_) (fun hf => hfail _ h (ne_noFaults hf))
    fun hf => hfail _ (h.temporary (.inr (.inl rfl)) _) (ne_noFaults hf)
  exact ⟨h.key_file, h.audit_file, h.anchor_file, rfl, h.session_file⟩

theorem write_session.spec {c : Contents crates} {session_id : String}
    {Q : Unit → Disk StoreFile → Prop} {E : Disk StoreFile → Prop} (h : Holds disk c)
    (hok : ∀ d, Holds d { c with session := some session_id } → Q () d)
    (hfail : ∀ d, Holds d c → faults ≠ noFaults → E d) :
    wp (write_session faults session_id) Q E disk := by
  rw [write_session, wp_mapError]
  refine wp_atomic_write (fun _ _ => hok _ ?_) (fun hf => hfail _ h (ne_noFaults hf))
    fun hf => hfail _ (h.temporary (.inr (.inr rfl)) _) (ne_noFaults hf)
  exact ⟨h.key_file, h.audit_file, h.anchor_file, h.replay_file, rfl⟩

/-- Opening a directory at a time, and what it may change before it fails. -/
structure Contents.Opening (now : I64) (c c' : Contents crates) : Prop where
  log : c'.log = c.log
  records : c'.records = c.records ∨ (∀ record ∈ c.records, ¬ IsBlank record.nonce) ∧
    c'.records = compactRecords (loadedNonces now c.records)
  session : c'.session = c.session

/-- Opening fails only when a file operation or the random source fails, or when the
directory holds what it cannot load. -/
theorem open_or_create.spec {c : Contents crates} (faults : Faults StoreFile) (session_id : String)
    (now : I64) (random : Except String { key : Bytes // key.length = 32 }) (h : Holds disk c) :
    wp (open_or_create crates faults session_id now random)
      (fun r d => c.Loads ∧ r.2 = ⟨c.log, loadedNonces now c.records⟩ ∧
        Holds d ⟨some r.1.audit_anchor_key, c.log, compactRecords (loadedNonces now c.records),
          some session_id⟩)
      (fun d => (∃ c', Holds d c' ∧ c.Opening now c') ∧
        (faults ≠ noFaults ∨ (∃ e, random = .error e) ∨ ¬ c.Loads)) disk := by
  have hfail : ∀ {d : Disk StoreFile} {c' : Contents crates}, Holds d c' → c.Opening now c' →
      ∀ {op : Op} {path : StoreFile}, faults op path ≠ none →
      (∃ c', Holds d c' ∧ c.Opening now c') ∧
        (faults ≠ noFaults ∨ (∃ e, random = .error e) ∨ ¬ c.Loads) :=
    fun hd hc _ _ hf => ⟨⟨_, hd, hc⟩, .inl (ne_noFaults hf)⟩
  have hopen : ∀ key, c.Opening now { c with key } := fun _ => ⟨rfl, .inl rfl, rfl⟩
  rw [open_or_create, wp_bind, wp_mapError]
  refine wp_attempt (fun _ => ?_) (hfail h (hopen _))
  rw [wp_bind]
  refine (load_or_create_anchor_key.spec h).mono ?_ ?_
  · intro key d hd
    rw [wp_bind, ensure_file_exists, wp_mapError]
    refine wp_ensure (fun _ => ?_) (hfail hd (hopen _))
    have hd₁ := hd.ensure_audit
    rw [wp_bind, ensure_file_exists, wp_mapError]
    refine wp_ensure (fun _ => ?_) (hfail hd₁ (hopen _))
    have hd₂ := hd₁.ensure_replay
    rw [wp_bind]
    refine load_audit_log.spec _ (congrArg some hd₂.audit_file) (fun _ => ?_)
      (hfail hd₂ (hopen _))
    rw [wp_bind]
    refine verify_audit_anchor.spec hd₂.anchor_file rfl ?_ (hfail hd₂ (hopen _))
    rw [wp_bind]
    refine load_replay_nonces.spec (congrArg some hd₂.replay_file) (fun _ hrecords => ?_)
      (hfail hd₂ (hopen _)) fun ⟨record, hr, hb⟩ =>
        ⟨⟨_, hd₂, hopen _⟩, .inr (.inr fun hloads => hloads.1 record hr hb)⟩
    rw [wp_bind]
    refine compact_replay_nonces.spec hd₂ (fun d hd₃ => ?_) fun d hd hf =>
      ⟨⟨_, hd, hopen _⟩, .inl hf⟩
    have hcompacted : c.Opening now
        ⟨some key, c.log, compactRecords (loadedNonces now c.records), c.session⟩ :=
      ⟨rfl, .inr ⟨hrecords, rfl⟩, rfl⟩
    rw [wp_bind]
    refine load_existing_session_if_present.spec hd₃.session_file (fun hsession => ?_)
      (hfail hd₃ hcompacted) fun ⟨id, hid, hb⟩ =>
        ⟨⟨_, hd₃, hcompacted⟩, .inr (.inr fun hloads => hloads.2 id hid hb)⟩
    rw [wp_bind]
    exact write_session.spec hd₃ (fun d hd₄ => ⟨⟨hrecords, hsession⟩, rfl, hd₄⟩) fun d hd hf =>
      ⟨⟨_, hd, hcompacted⟩, .inl hf⟩
  · rintro d ⟨⟨key, hd⟩, hf | hr⟩
    · exact ⟨⟨_, hd, hopen _⟩, .inl hf⟩
    · exact ⟨⟨_, hd, hopen _⟩, .inr (.inl hr)⟩

/-- A directory that loads opens. -/
theorem open_or_create_of_loads {c : Contents crates} (h : Holds disk c) (hloads : c.Loads)
    (session_id : String) (now : I64) (key : { key : Bytes // key.length = 32 }) :
    ∃ store d, open_or_create crates noFaults session_id now (.ok key) disk =
        .ok (store, ⟨c.log, loadedNonces now c.records⟩) d ∧
      Holds d ⟨some store.audit_anchor_key, c.log, compactRecords (loadedNonces now c.records),
        some session_id⟩ := by
  have hspec := open_or_create.spec noFaults session_id now (.ok key) h
  obtain ⟨⟨store, state⟩, d, hrun, -, hstate, hd⟩ := wp.total <| hspec.mono (fun _ _ hq => hq)
    (by rintro d ⟨-, hn | ⟨e, he⟩ | hl⟩
        · exact hn rfl
        · cases he
        · exact hl hloads)
  dsimp only at hstate hd
  subst hstate
  exact ⟨store, d, hrun, hd⟩

/-- A directory that does not load never opens. -/
theorem open_or_create_of_not_loads {c : Contents crates} (h : Holds disk c) (hloads : ¬ c.Loads)
    (session_id : String) (now : I64) (random : Except String { key : Bytes // key.length = 32 }) :
    ∃ e d, open_or_create crates faults session_id now random disk = .error e d := by
  have hspec := open_or_create.spec faults session_id now random h
  rcases hrun : open_or_create crates faults session_id now random disk with ⟨r, d⟩ | ⟨e, d⟩
  · exact absurd (hspec.of_ok hrun).1 hloads
  · exact ⟨e, d, rfl⟩

/-! ## Appending -/

/-- No operation that follows the append of the line fails. -/
def AnchorFollows (faults : Faults StoreFile) : Prop :=
  faults .read .audit = none ∧ faults .write .audit_anchor_tmp = none ∧
    faults .rename .audit_anchor = none

/-- The audit file has one event more than the anchor was made for. -/
structure Torn (disk : Disk StoreFile) (c : Contents crates) (entry : AuditEntry) : Prop where
  key_file : KeyFile (disk .audit_anchor_key) c.key
  audit_file : disk .audit = some (.text (eventCodec.text (c.log.append entry).1.events))
  anchor_file : AnchorFile (disk .audit_anchor) c

/-- The append fails at the line, which changes nothing, or after the line, which leaves
the anchor behind. -/
theorem append_audit_event.spec {c : Contents crates} {store : BrokerPersistentStore}
    (faults : Faults StoreFile) (entry : AuditEntry) (h : Holds disk c)
    (hkey : c.key = some store.audit_anchor_key) :
    wp (append_audit_event crates faults store (c.log.build_next entry))
      (fun _ d => AnchorFollows faults ∧ Holds d { c with log := (c.log.append entry).1 })
      (fun d => (faults .append .audit ≠ none ∧ d = disk) ∨
        (faults .append .audit = none ∧ ¬ AnchorFollows faults ∧ Torn d c entry)) disk := by
  rw [append_audit_event, wp_bind, wp_mapError]
  refine wp_appendLine (fun hline => ?_) fun hf => .inl ⟨hf, rfl⟩
  have haudit : ((disk .audit).getD (.text [])).append
      (eventCodec.line (c.log.build_next entry) ++ ['\n']) =
        .text (eventCodec.text (c.log.append entry).1.events) := by
    rw [h.audit_file, Content.append_text, eventCodec.text_snoc]
    rfl
  rw [haudit, wp_bind]
  refine load_audit_log.spec _ (Function.update_self ..) (fun hread => ?_) fun hf =>
    .inr ⟨hline, fun ha => hf ha.1, h.key_file, rfl, h.anchor_file⟩
  rw [write_audit_anchor, wp_mapError]
  refine wp_atomic_write (fun hw hr => ⟨⟨hread, hw, hr⟩, ?_⟩)
    (fun hf => .inr ⟨hline, fun ha => hf ha.2.1, h.key_file, rfl, h.anchor_file⟩)
    fun hf => .inr ⟨hline, fun ha => hf ha.2.2, h.key_file, rfl, h.anchor_file⟩
  exact ⟨h.key_file, rfl, .inr ⟨_, hkey, rfl⟩, h.replay_file, h.session_file⟩

/-- An anchor made for one event fewer does not verify. -/
theorem verify_audit_anchor.torn {c : Contents crates} {store : BrokerPersistentStore}
    {Q : Unit → Disk StoreFile → Prop} (hfile : AnchorFile (disk .audit_anchor) c)
    (entry : AuditEntry) :
    wp (verify_audit_anchor crates faults store (c.log.append entry).1) Q (fun _ => True) disk := by
  have hlen : (c.log.append entry).1.events.length = c.log.events.length + 1 := by
    simp [BrokerAuditLog.append]
  rw [verify_audit_anchor, wp_bind, wp_fileExists]
  rcases hfile with ⟨hempty, hnone⟩ | ⟨key, hk, hsome⟩
  · rw [hnone, Option.isSome_none, if_neg Bool.false_ne_true, if_neg]
    · trivial
    · intro hnil
      rw [hnil] at hlen
      cases hlen
  · rw [hsome, Option.isSome_some, if_pos rfl, wp_bind, wp_mapError]
    refine wp_readToString hsome (fun _ => ?_) fun _ => trivial
    rw [parse_anchorText]
    dsimp only
    rw [if_neg]
    · trivial
    · intro heq
      have hcount : c.log.events.length = (c.log.append entry).1.events.length :=
        congrArg AuditAnchorRecord.event_count heq
      omega

/-- A torn directory never opens: its anchor counts one event too few. -/
theorem open_or_create_of_torn {c : Contents crates} {entry : AuditEntry} {key : Bytes}
    (h : Torn disk c entry) (hkey : c.key = some key) (session_id : String) (now : I64)
    (random : Except String { key : Bytes // key.length = 32 }) :
    ∃ e d, open_or_create crates faults session_id now random disk = .error e d := by
  have hspec : wp (open_or_create crates faults session_id now random) (fun _ _ => False)
      (fun _ => True) disk := by
    rw [open_or_create, wp_bind, wp_mapError]
    refine wp_attempt (fun _ => ?_) fun _ => trivial
    rw [wp_bind]
    refine load_or_create_anchor_key.read (hkey ▸ h.key_file) ?_ fun _ => trivial
    rw [wp_bind, ensure_file_exists, wp_mapError]
    refine wp_ensure (fun _ => ?_) fun _ => trivial
    rw [wp_bind, ensure_file_exists, wp_mapError]
    refine wp_ensure (fun _ => ?_) fun _ => trivial
    rw [wp_bind]
    refine load_audit_log.spec (c.log.append entry).1 ?_ (fun _ => ?_) fun _ => trivial
    · show some ((disk .audit).getD (.text [])) = _
      rw [h.audit_file]
      rfl
    · rw [wp_bind]
      apply verify_audit_anchor.torn
      exact h.anchor_file
  rcases hrun : open_or_create crates faults session_id now random disk with ⟨r, d⟩ | ⟨e, d⟩
  · exact (hspec.of_ok hrun).elim
  · exact ⟨e, d, rfl⟩

/-- What `append_replay_nonce` needs of the files: no operation on the replay file fails,
and with its new line the file loads. -/
def CanRecord (crates : Crates) (faults : Faults StoreFile) (disk : Disk StoreFile) (nonce : String)
    (clock : I64) : Prop :=
  (faults .append .replay = none ∧ faults .read .replay = none ∧
    faults .write .replay_tmp = none ∧ faults .rename .replay = none) ∧
  (replayNoncesOf crates (((disk .replay).getD (.text [])).append
    (nonceCodec.line ⟨nonce, some clock⟩ ++ ['\n'])) clock).isOk = true

theorem append_replay_nonce.outcome (crates : Crates) (faults : Faults StoreFile)
    (disk : Disk StoreFile) (nonce : String) (clock : I64) :
    wp (append_replay_nonce crates faults nonce clock)
      (fun _ _ => CanRecord crates faults disk nonce clock)
      (fun _ => ¬ CanRecord crates faults disk nonce clock) disk := by
  rw [append_replay_nonce, wp_bind, wp_mapError]
  refine wp_appendLine (fun hline => ?_) fun hf hc => hf hc.1.1
  rw [wp_bind, load_replay_nonces, wp_bind, wp_mapError]
  refine wp_read (Function.update_self ..) (fun hread => ?_) fun hf hc => hf hc.1.2.1
  rcases hload : replayNoncesOf crates (((disk .replay).getD (.text [])).append
    (nonceCodec.line ⟨nonce, some clock⟩ ++ ['\n'])) clock with e | nonces
  · rw [wp_outcome_error]
    intro hc
    have := hc.2
    rw [hload] at this
    cases this
  · rw [wp_outcome_ok, wp_bind, compact_replay_nonces, wp_mapError]
    refine wp_atomic_write (fun hw hr => ?_) (fun hf hc => hf hc.1.2.2.1) fun hf hc =>
      hf hc.1.2.2.2
    refine ⟨⟨hline, hread, hw, hr⟩, ?_⟩
    rw [hload]
    rfl

/-- The nonce stands in the file from its line on, whether the rest succeeds or not. -/
theorem append_replay_nonce.spec {c : Contents crates} (faults : Faults StoreFile) (nonce : String)
    (clock : I64) (h : Holds disk c) :
    wp (append_replay_nonce crates faults nonce clock)
      (fun nonces d => nonces = loadedNonces clock (c.records ++ [⟨nonce, some clock⟩]) ∧
        (∀ record ∈ c.records ++ [⟨nonce, some clock⟩], ¬ IsBlank record.nonce) ∧
        Holds d { c with records := compactRecords nonces })
      (fun d => (faults .append .replay ≠ none ∧ d = disk) ∨
        (faults .append .replay = none ∧
          Holds d { c with records := c.records ++ [⟨nonce, some clock⟩] } ∧
          (faults ≠ noFaults ∨
            ∃ record ∈ c.records ++ [⟨nonce, some clock⟩], IsBlank record.nonce))) disk := by
  rw [append_replay_nonce, wp_bind, wp_mapError]
  refine wp_appendLine (fun hline => ?_) fun hf => .inl ⟨hf, rfl⟩
  have hreplay : ((disk .replay).getD (.text [])).append
      (nonceCodec.line ⟨nonce, some clock⟩ ++ ['\n']) =
        .text (nonceCodec.text (c.records ++ [⟨nonce, some clock⟩])) := by
    rw [h.replay_file, Content.append_text, nonceCodec.text_snoc]
  rw [hreplay]
  have hd : Holds (Function.update disk .replay
      (some (.text (nonceCodec.text (c.records ++ [⟨nonce, some clock⟩])))))
      { c with records := c.records ++ [⟨nonce, some clock⟩] } :=
    ⟨h.key_file, h.audit_file, h.anchor_file, rfl, h.session_file⟩
  rw [wp_bind]
  refine load_replay_nonces.spec (Function.update_self ..) (fun _ hrecords => ?_)
    (fun hf => .inr ⟨hline, hd, .inl (ne_noFaults hf)⟩) fun hb => .inr ⟨hline, hd, .inr hb⟩
  rw [wp_bind]
  exact compact_replay_nonces.spec hd (fun d hd' => ⟨rfl, hrecords, hd'⟩) fun d hd' hf =>
    .inr ⟨hline, hd', .inl hf⟩

end store
