-- The key of the audit anchor (broker/store.rs). A directory keeps the key that its key file
-- holds; the key is made with 32 bytes, but a key file is taken with as many as it has.
import GuiShell.Broker.Directory
import Mathlib.Logic.Relation

open json serde_json broker_audit files json_lines

namespace store

variable {crates : Crates} {faults : Faults StoreFile} {disk : Disk StoreFile}

/-! ## What opens -/

/-- The anchor of a log, which an empty log may lack. -/
def AnchorVerifies (crates : Crates) (faults : Faults StoreFile) (key : Bytes)
    (log : BrokerAuditLog crates.sha256) : Option Content → Prop
  | none => log.events = []
  | some content => faults .read .audit_anchor = none ∧ content.broken = false ∧
    (parse (.ofList content.chars)).bind decodeAnchor =
      some (build_audit_anchor crates.sha256 ⟨key⟩ log)

/-- A session file may be missing. One that is there names an active session. -/
def SessionLoads (faults : Faults StoreFile) : Option Content → Prop
  | none => True
  | some content => faults .read .session = none ∧ content.broken = false ∧
    trim content.chars ≠ [] ∧ ∃ record, (parse (.ofList content.chars)).bind decodeSession =
      some record ∧ ¬ IsBlank record.session_id ∧ record.state = "active"

/-- No file operation fails, and beside its key file the directory holds what can be loaded
under a key. -/
structure OpensWith (crates : Crates) (faults : Faults StoreFile) (now : I64)
    (disk : Disk StoreFile) (key : Bytes) : Prop where
  root : faults .createDir .root = none
  read_key : faults .read .audit_anchor_key = none
  ensure_audit : faults .ensure .audit = none
  ensure_replay : faults .ensure .replay = none
  read_audit : faults .read .audit = none
  read_replay : faults .read .replay = none
  write_replay : faults .write .replay_tmp = none
  rename_replay : faults .rename .replay = none
  write_session : faults .write .session_tmp = none
  rename_session : faults .rename .session = none
  audit : ∃ log, auditLogOf crates ((disk .audit).getD (.text [])) = .ok log ∧
    AnchorVerifies crates faults key log (disk .audit_anchor)
  replay : (replayNoncesOf crates ((disk .replay).getD (.text [])) now).isOk = true
  session : SessionLoads faults (disk .session)

/-- The key file holds a key of another length. -/
def MisfitKey (disk : Disk StoreFile) (key : Bytes) : Prop :=
  KeyFile (disk .audit_anchor_key) (some key) ∧ key.length ≠ 32

/-! ## The directory after the key -/

theorem load_audit_log.outcome (content : Content) (hfile : disk .audit = some content) :
    wp (load_audit_log crates faults)
      (fun log d => d = disk ∧ faults .read .audit = none ∧ auditLogOf crates content = .ok log)
      (fun _ => ¬ (faults .read .audit = none ∧ ∃ log, auditLogOf crates content = .ok log))
      disk := by
  rw [load_audit_log, wp_bind, wp_mapError]
  refine wp_read hfile (fun hread => ?_) fun hf h => hf h.1
  rcases hlog : auditLogOf crates content with e | log
  · rw [wp_outcome_error]
    rintro ⟨_, log, hsome⟩
    cases hsome
  · exact ⟨rfl, hread, rfl⟩

theorem verify_audit_anchor.outcome (key : Bytes) (log : BrokerAuditLog crates.sha256) :
    wp (verify_audit_anchor crates faults ⟨key⟩ log)
      (fun _ d => d = disk ∧ AnchorVerifies crates faults key log (disk .audit_anchor))
      (fun _ => ¬ AnchorVerifies crates faults key log (disk .audit_anchor)) disk := by
  rw [verify_audit_anchor, wp_bind, wp_fileExists]
  rcases hanchor : disk .audit_anchor with _ | content
  · rw [Option.isSome_none, if_neg Bool.false_ne_true]
    by_cases hempty : log.events = []
    · rw [if_pos hempty]
      exact ⟨rfl, hempty⟩
    · rw [if_neg hempty]
      exact hempty
  · rw [Option.isSome_some, if_pos rfl, wp_bind, wp_mapError]
    refine wp_readToString_content hanchor (fun hread hbroken => ?_) fun hno h => hno ⟨h.1, h.2.1⟩
    rcases hparse : (parse (.ofList content.chars)).bind decodeAnchor with _ | record
    · rintro ⟨-, -, hsome⟩
      rw [hparse] at hsome
      cases hsome
    · dsimp only
      by_cases hrecord : record = build_audit_anchor crates.sha256 ⟨key⟩ log
      · rw [if_pos hrecord]
        exact ⟨rfl, hread, hbroken, by rw [hparse, hrecord]⟩
      · rw [if_neg hrecord]
        rintro ⟨-, -, hsome⟩
        rw [hparse, Option.some.injEq] at hsome
        exact hrecord hsome

theorem load_replay_nonces.outcome {now : I64} (content : Content)
    (hfile : disk .replay = some content) :
    wp (load_replay_nonces crates faults now)
      (fun _ d => d = disk ∧ faults .read .replay = none ∧
        (replayNoncesOf crates content now).isOk = true)
      (fun _ => ¬ (faults .read .replay = none ∧
        (replayNoncesOf crates content now).isOk = true)) disk := by
  rw [load_replay_nonces, wp_bind, wp_mapError]
  refine wp_read hfile (fun hread => ?_) fun hf h => hf h.1
  rcases hnonces : replayNoncesOf crates content now with e | nonces
  · rw [wp_outcome_error]
    rintro ⟨_, hok⟩
    cases hok
  · exact ⟨rfl, hread, rfl⟩

theorem load_existing_session_if_present.outcome :
    wp (load_existing_session_if_present crates faults)
      (fun _ d => d = disk ∧ SessionLoads faults (disk .session))
      (fun _ => ¬ SessionLoads faults (disk .session)) disk := by
  rw [load_existing_session_if_present, wp_bind, wp_fileExists]
  rcases hsession : disk .session with _ | content
  · exact ⟨rfl, trivial⟩
  · rw [Option.isSome_some, if_pos rfl, wp_bind, wp_mapError]
    refine wp_readToString_content hsession (fun hread hbroken => ?_)
      fun hno h => hno ⟨h.1, h.2.1⟩
    by_cases hblank : trim content.chars = []
    · rw [if_pos hblank]
      exact fun h => h.2.2.1 hblank
    · rw [if_neg hblank]
      rcases hparse : (parse (.ofList content.chars)).bind decodeSession with _ | record
      · rintro ⟨-, -, -, record, hsome, -⟩
        rw [hparse] at hsome
        cases hsome
      · dsimp only
        by_cases hinvalid : trim record.session_id.toList = [] ∨ record.state ≠ "active"
        · rw [if_pos hinvalid]
          rintro ⟨-, -, -, record', hsome, hid, hstate⟩
          rw [hparse, Option.some.injEq] at hsome
          subst hsome
          rcases hinvalid with h | h
          · exact hid h
          · exact h hstate
        · rw [if_neg hinvalid]
          rw [not_or, not_not] at hinvalid
          exact ⟨rfl, hread, hbroken, hblank, record, hparse, hinvalid⟩

/-- The temporary file and the file change, and no other one. -/
theorem atomic_write.outcome (other : StoreFile) {path : StoreFile} {chars : List Char}
    (hpath : other ≠ path) (htemporary : other ≠ path.temporary_path) :
    wp (atomic_write faults path chars)
      (fun _ d => d other = disk other ∧ faults .write path.temporary_path = none ∧
        faults .rename path = none)
      (fun _ => ¬ (faults .write path.temporary_path = none ∧ faults .rename path = none))
      disk := by
  refine wp_atomic_write (fun hw hr => ⟨?_, hw, hr⟩) (fun hf h => hf h.1) fun hf h => hf h.2
  rw [Function.update_of_ne htemporary, Function.update_of_ne hpath,
    Function.update_of_ne htemporary]

/-! ## Opening -/

/-- The key is that of the key file, which is made when it is not there. -/
theorem load_or_create_anchor_key.outcome
    (random : Except String { key : Bytes // key.length = 32 }) :
    wp (load_or_create_anchor_key crates faults random)
      (fun key d => KeyFile (d .audit_anchor_key) (some key) ∧
        (disk .audit_anchor_key = none ∧ key.length = 32 ∨ d = disk))
      (fun d => disk .audit_anchor_key ≠ none → d = disk) disk := by
  rw [load_or_create_anchor_key, wp_bind, wp_fileExists]
  rcases hfile : disk .audit_anchor_key with _ | content
  · rw [Option.isSome_none, if_neg Bool.false_ne_true, wp_bind, wp_mapError]
    cases random with
    | error e =>
      rw [wp_outcome_error]
      exact fun hne => absurd rfl hne
    | ok key =>
      rw [wp_outcome_ok, wp_bind, wp_mapError]
      refine wp_create (fun _ => ?_) fun _ hne => absurd rfl hne
      rw [wp_bind, wp_mapError]
      refine wp_write (fun _ => ?_) fun _ hne => absurd rfl hne
      rw [wp_bind, wp_mapError]
      refine wp_attempt (fun _ => ?_) fun _ hne => absurd rfl hne
      refine ⟨?_, .inl ⟨rfl, key.property⟩⟩
      rw [Function.update_self]
      exact keyFile_digits key.val
  · rw [Option.isSome_some, if_pos rfl, wp_bind, wp_mapError]
    refine wp_readToString_content hfile (fun _ hbroken => ?_) fun _ _ => rfl
    rcases hdigits : hex.readDigits (trim content.chars) with _ | key
    · exact fun _ => rfl
    · refine ⟨⟨content.chars, ?_, hdigits⟩, .inr rfl⟩
      rw [hfile, Content.text, ← hbroken]

/-- Under the key of its key file a directory opens exactly when it can be loaded. -/
theorem open_or_create.outcome {key : Bytes} (hkey : KeyFile (disk .audit_anchor_key) (some key))
    (session_id : String) (now : I64)
    (random : Except String { key : Bytes // key.length = 32 }) :
    wp (open_or_create crates faults session_id now random)
      (fun r _ => r.1.audit_anchor_key = key ∧ OpensWith crates faults now disk key)
      (fun _ => ¬ OpensWith crates faults now disk key) disk := by
  rw [open_or_create, wp_bind, wp_mapError]
  refine wp_attempt (fun hroot => ?_) fun hf h => hf h.root
  obtain ⟨raw, hraw, hdigits⟩ := hkey
  rw [wp_bind, load_or_create_anchor_key, wp_bind, wp_fileExists, hraw, Option.isSome_some,
    if_pos rfl, wp_bind, wp_mapError]
  refine wp_readToString hraw (fun hread_key => ?_) fun hf h => hf h.read_key
  rw [hdigits]
  dsimp only
  rw [wp_pure, wp_bind, ensure_file_exists, wp_mapError]
  refine wp_ensure (fun hensure_audit => ?_) fun hf h => hf h.ensure_audit
  rw [wp_bind, ensure_file_exists, wp_mapError]
  refine wp_ensure (fun hensure_replay => ?_) fun hf h => hf h.ensure_replay
  rw [wp_bind]
  refine (load_audit_log.outcome _ rfl).mono ?_ ?_
  · rintro log d ⟨rfl, hread_audit, hlog⟩
    rw [wp_bind]
    refine (verify_audit_anchor.outcome key log).mono ?_ ?_
    · rintro - d ⟨rfl, hanchor⟩
      rw [wp_bind]
      refine (load_replay_nonces.outcome _ rfl).mono ?_ ?_
      · rintro nonces d ⟨rfl, hread_replay, hreplay⟩
        rw [wp_bind, compact_replay_nonces, wp_mapError]
        refine (atomic_write.outcome .session (by decide) (by decide)).mono ?_ ?_
        · rintro - d ⟨hsession, hwrite_replay, hrename_replay⟩
          rw [wp_bind]
          refine load_existing_session_if_present.outcome.mono ?_ ?_
          · rintro - d' ⟨rfl, hloads⟩
            rw [wp_bind, write_session, wp_mapError]
            refine (atomic_write.outcome .root (by decide) (by decide)).mono ?_ ?_
            · rintro - d ⟨-, hwrite_session, hrename_session⟩
              rw [hsession] at hloads
              exact ⟨rfl, hroot, hread_key, hensure_audit, hensure_replay, hread_audit,
                hread_replay, hwrite_replay, hrename_replay, hwrite_session, hrename_session,
                ⟨log, hlog, hanchor⟩, hreplay, hloads⟩
            · exact fun _ hno h => hno ⟨h.write_session, h.rename_session⟩
          · intro _ hno h
            rw [hsession] at hno
            exact hno h.session
        · exact fun _ hno h => hno ⟨h.write_replay, h.rename_replay⟩
      · exact fun _ hno h => hno ⟨h.read_replay, h.replay⟩
    · rintro _ hno ⟨_, _, _, _, _, _, _, _, _, _, ⟨log', hlog', hanchor⟩, _, _⟩
      rw [hlog, Except.ok.injEq] at hlog'
      subst hlog'
      exact hno hanchor
  · rintro _ hno h
    obtain ⟨log, hlog, _⟩ := h.audit
    exact hno ⟨h.read_audit, log, hlog⟩

/-! ## The key file over a run -/

theorem leaves_atomic_write {path other : StoreFile} (hpath : other ≠ path)
    (htemporary : other ≠ path.temporary_path) (chars : List Char) :
    Leaves other (atomic_write faults path chars) :=
  leaves_bind (leaves_write htemporary _) fun _ => leaves_rename htemporary hpath

theorem leaves_load_audit_log (path : StoreFile) : Leaves path (load_audit_log crates faults) :=
  leaves_bind (leaves_mapError (leaves_read StoreFile.audit)) fun _ => leaves_outcome _

theorem leaves_load_replay_nonces (path : StoreFile) (now : I64) :
    Leaves path (load_replay_nonces crates faults now) :=
  leaves_bind (leaves_mapError (leaves_read StoreFile.replay)) fun _ => leaves_outcome _

theorem leaves_verify_audit_anchor (path : StoreFile) (store : BrokerPersistentStore)
    (log : BrokerAuditLog crates.sha256) :
    Leaves path (verify_audit_anchor crates faults store log) := by
  refine leaves_bind (leaves_fileExists _) fun present => ?_
  split
  · refine leaves_bind (leaves_mapError (leaves_readToString _)) fun raw => ?_
    split
    · exact leaves_throw _
    · split
      · exact leaves_pure ()
      · exact leaves_throw _
  · split
    · exact leaves_pure ()
    · exact leaves_throw _

theorem leaves_load_existing_session_if_present (path : StoreFile) :
    Leaves path (load_existing_session_if_present crates faults) := by
  refine leaves_bind (leaves_fileExists _) fun present => ?_
  split
  · refine leaves_bind (leaves_mapError (leaves_readToString _)) fun raw => ?_
    split
    · exact leaves_throw _
    · split
      · exact leaves_throw _
      · split
        · exact leaves_throw _
        · exact leaves_pure ()
  · exact leaves_pure ()

theorem append_audit_event.leaves_key (store : BrokerPersistentStore) (event : BrokerAuditEvent) :
    Leaves .audit_anchor_key (append_audit_event crates faults store event) :=
  leaves_bind (leaves_mapError (leaves_appendLine (by decide) _)) fun _ =>
    leaves_bind (leaves_load_audit_log _) fun _ =>
      leaves_mapError (leaves_atomic_write (by decide) (by decide) _)

theorem append_replay_nonce.leaves_key (nonce : String) (clock : I64) :
    Leaves .audit_anchor_key (append_replay_nonce crates faults nonce clock) :=
  leaves_bind (leaves_mapError (leaves_appendLine (by decide) _)) fun _ =>
    leaves_bind (leaves_load_replay_nonces _ clock) fun _ =>
      leaves_bind (leaves_mapError (leaves_atomic_write (by decide) (by decide) _)) fun _ =>
        leaves_pure _

/-- A key file that is there is not written again. -/
theorem open_or_create.key_file (session_id : String) (now : I64)
    (random : Except String { key : Bytes // key.length = 32 }) :
    wp (open_or_create crates faults session_id now random)
      (fun r d => KeyFile (d .audit_anchor_key) (some r.1.audit_anchor_key) ∧
        (disk .audit_anchor_key = none ∧ r.1.audit_anchor_key.length = 32 ∨
          d .audit_anchor_key = disk .audit_anchor_key))
      (fun d => disk .audit_anchor_key ≠ none → d .audit_anchor_key = disk .audit_anchor_key)
      disk := by
  rw [open_or_create, wp_bind, wp_mapError]
  refine wp_attempt (fun _ => ?_) fun _ _ => rfl
  rw [wp_bind]
  refine (load_or_create_anchor_key.outcome random).mono ?_ fun _ hd hne => by rw [hd hne]
  rintro key d ⟨hkey, hfile⟩
  have hframe : ∀ d' : Disk StoreFile, d' .audit_anchor_key = d .audit_anchor_key →
      disk .audit_anchor_key ≠ none → d' .audit_anchor_key = disk .audit_anchor_key := by
    rintro d' hd' hne
    rcases hfile with ⟨hnone, _⟩ | rfl
    · exact absurd hnone hne
    · exact hd'
  dsimp only
  refine wp_bind_of_leaves (leaves_mapError (leaves_ensure (by decide))) rfl (fun _ _ h => ?_)
    hframe
  refine wp_bind_of_leaves (leaves_mapError (leaves_ensure (by decide))) h (fun _ _ h => ?_) hframe
  refine wp_bind_of_leaves (leaves_load_audit_log _) h (fun _ _ h => ?_) hframe
  refine wp_bind_of_leaves (leaves_verify_audit_anchor _ _ _) h (fun _ _ h => ?_) hframe
  refine wp_bind_of_leaves (leaves_load_replay_nonces _ _) h (fun _ _ h => ?_) hframe
  refine wp_bind_of_leaves (leaves_mapError (leaves_atomic_write (by decide) (by decide) _)) h
    (fun _ _ h => ?_) hframe
  refine wp_bind_of_leaves (leaves_load_existing_session_if_present _) h (fun _ _ h => ?_) hframe
  refine wp_bind_of_leaves (leaves_mapError (leaves_atomic_write (by decide) (by decide) _)) h
    (fun _ _ h => ?_) hframe
  rw [wp_pure]
  dsimp only
  rw [h]
  refine ⟨hkey, ?_⟩
  rcases hfile with ⟨hnone, hlen⟩ | rfl
  · exact .inl ⟨hnone, hlen⟩
  · exact .inr rfl

/-! ## The key of a directory -/

/-- One call of the store on a directory, which may fail. -/
inductive StoreStep (crates : Crates) : Disk StoreFile → Disk StoreFile → Prop
  | opening (faults : Faults StoreFile) (session_id : String) (now : I64)
      (random : Except String { key : Bytes // key.length = 32 }) (disk : Disk StoreFile) :
      StoreStep crates disk (after (open_or_create crates faults session_id now random) disk)
  | event (faults : Faults StoreFile) (store : BrokerPersistentStore) (event : BrokerAuditEvent)
      (disk : Disk StoreFile) :
      StoreStep crates disk (after (append_audit_event crates faults store event) disk)
  | nonce (faults : Faults StoreFile) (nonce : String) (clock : I64) (disk : Disk StoreFile) :
      StoreStep crates disk (after (append_replay_nonce crates faults nonce clock) disk)

theorem after_of_wp {α : Type} {x : StoreM α} {P : Disk StoreFile → Prop}
    (h : wp x (fun _ d => P d) P disk) : P (after x disk) := by
  unfold wp at h
  unfold after
  rcases hx : x disk with ⟨a, d⟩ | ⟨e, d⟩
  · rw [hx] at h
    exact h
  · rw [hx] at h
    exact h

theorem StoreStep.key_file {disk' : Disk StoreFile} (h : StoreStep crates disk disk')
    (hne : disk .audit_anchor_key ≠ none) :
    disk' .audit_anchor_key = disk .audit_anchor_key := by
  cases h with
  | opening faults session_id now random =>
    refine after_of_wp (P := fun d => d .audit_anchor_key = disk .audit_anchor_key)
      ((open_or_create.key_file session_id now random).mono ?_ fun d hd => hd hne)
    rintro r d ⟨-, ⟨hnone, -⟩ | hkept⟩
    · exact absurd hnone hne
    · exact hkept
  | event faults store event => exact append_audit_event.leaves_key store event disk
  | nonce faults nonce clock => exact append_replay_nonce.leaves_key nonce clock disk

/-- Whatever is called afterwards, in whatever order and with whatever failures. -/
theorem key_file_later {disk' : Disk StoreFile}
    (h : Relation.ReflTransGen (StoreStep crates) disk disk')
    (hne : disk .audit_anchor_key ≠ none) :
    disk' .audit_anchor_key = disk .audit_anchor_key := by
  induction h with
  | refl => rfl
  | tail _ hstep ih => exact (hstep.key_file (by rw [ih]; exact hne)).trans ih

theorem keyFile_inj {content : Option Content} {key key' : Bytes}
    (h : KeyFile content (some key)) (h' : KeyFile content (some key')) : key = key' := by
  obtain ⟨raw, rfl, hdigits⟩ := h
  obtain ⟨raw', hraw, hdigits'⟩ := h'
  obtain rfl : raw = raw' := by
    rw [Option.some.injEq, Content.text, Content.text, Content.mk.injEq] at hraw
    exact hraw.1
  exact Option.some.inj (hdigits.symm.trans hdigits')

/-- When the directory opens, it is with a key of 32 bytes, and every later opening, after
whatever calls, is with that key. -/
def KeptKey (crates : Crates) (faults : Faults StoreFile) (session_id : String) (now : I64)
    (random : Except String { key : Bytes // key.length = 32 }) (disk : Disk StoreFile) : Prop :=
  ∀ opened disk₁, open_or_create crates faults session_id now random disk = .ok opened disk₁ →
    opened.1.audit_anchor_key.length = 32 ∧
      ∀ disk₂, Relation.ReflTransGen (StoreStep crates) disk₁ disk₂ →
        ∀ faults' session_id' now' random' opened' disk₃,
          open_or_create crates faults' session_id' now' random' disk₂ = .ok opened' disk₃ →
            opened'.1.audit_anchor_key = opened.1.audit_anchor_key

/-- A directory keeps a key of 32 bytes, unless it opens under a key file of another length. -/
theorem kept_key_iff (faults : Faults StoreFile) (session_id : String) (now : I64)
    (random : Except String { key : Bytes // key.length = 32 }) (disk : Disk StoreFile) :
    KeptKey crates faults session_id now random disk ↔
      ¬ ∃ key, MisfitKey disk key ∧ OpensWith crates faults now disk key := by
  constructor
  · rintro hkept ⟨key, ⟨hkey, hlen⟩, hopens⟩
    have hspec := @open_or_create.outcome crates faults _ _ hkey session_id now random
    rcases hrun : open_or_create crates faults session_id now random disk with
      ⟨opened, disk₁⟩ | ⟨e, disk₁⟩
    · obtain ⟨heq, -⟩ := hspec.of_ok hrun
      exact hlen (heq ▸ (hkept opened disk₁ hrun).1)
    · exact hspec.of_error hrun hopens
  · intro hno opened disk₁ hrun
    obtain ⟨hkey, hfile⟩ := (open_or_create.key_file session_id now random).of_ok hrun
    have hpresent : disk₁ .audit_anchor_key ≠ none := by
      obtain ⟨raw, hraw, -⟩ := hkey
      rw [hraw]
      exact Option.some_ne_none _
    refine ⟨?_, fun disk₂ hlater faults' session_id' now' random' opened' disk₃ hrun' => ?_⟩
    · rcases hfile with ⟨-, hlen⟩ | hsame
      · exact hlen
      · rw [hsame] at hkey
        by_contra hlen
        exact hno ⟨_, ⟨hkey, hlen⟩,
          ((open_or_create.outcome hkey session_id now random).of_ok hrun).2⟩
    · obtain ⟨hkey', hfile'⟩ := (open_or_create.key_file session_id' now' random').of_ok hrun'
      have hsame := key_file_later hlater hpresent
      rcases hfile' with ⟨hnone, -⟩ | hsame'
      · rw [hsame] at hnone
        exact absurd hnone hpresent
      · rw [hsame', hsame] at hkey'
        exact keyFile_inj hkey' hkey

/-- What is left of a first opening that stopped between the creation of the key file and the
write of the key. -/
def emptyKeyFile : Disk StoreFile := Function.update (fun _ => none) .audit_anchor_key
  (some (.text []))

theorem opens_emptyKeyFile : OpensWith .ascii noFaults ⟨0, by decide, by decide⟩ emptyKeyFile [] := by
  refine ⟨rfl, rfl, rfl, rfl, rfl, rfl, rfl, rfl, rfl, rfl, ⟨.default, ?_, rfl⟩, ?_, trivial⟩
  · exact auditLogOf_text .default
  · decide +kernel

/-- The empty key file is taken as a key of no bytes. -/
theorem empty_key_is_taken :
    ¬ KeptKey .ascii noFaults "session-1" ⟨0, by decide, by decide⟩
      (.ok ⟨List.replicate 32 (UInt8.ofNat 0), rfl⟩) emptyKeyFile := by
  intro hkept
  have hkey : KeyFile (emptyKeyFile .audit_anchor_key) (some []) := ⟨[], rfl, rfl⟩
  have hspec := @open_or_create.outcome .ascii noFaults _ _ hkey "session-1"
    ⟨0, by decide, by decide⟩ (.ok ⟨List.replicate 32 (UInt8.ofNat 0), rfl⟩)
  rcases hrun : open_or_create .ascii noFaults "session-1" ⟨0, by decide, by decide⟩
    (.ok ⟨List.replicate 32 (UInt8.ofNat 0), rfl⟩) emptyKeyFile with ⟨opened, disk₁⟩ | ⟨e, disk₁⟩
  · obtain ⟨heq, -⟩ := hspec.of_ok hrun
    have hlen := (hkept opened disk₁ hrun).1
    rw [heq] at hlen
    cases hlen
  · exact hspec.of_error hrun opens_emptyKeyFile

end store
