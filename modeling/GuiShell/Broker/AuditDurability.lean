-- What the audit log of a directory keeps over a run. Whatever fails, the events that stand
-- in the log are those that responses named, one for each and in their order; and none of them
-- is lost when processes come and go.
import GuiShell.Broker.AnchorKey
import GuiShell.Broker.AuditBinding
import GuiShell.Broker.Reopening

open json serde_json authority broker_audit files store

namespace store

variable {crates : Crates} {faults : Faults StoreFile} {disk : Disk StoreFile}
  {log : BrokerAuditLog crates.sha256}

/-! ## A file that ran ahead of its anchor -/

/-- The audit file has more lines than its anchor covers. Each of them was made as the next
event of one log. -/
structure Overrun (disk : Disk StoreFile) (log : BrokerAuditLog crates.sha256) : Prop where
  audit_file : ∃ entries, entries ≠ [] ∧ disk .audit =
    some (.text (eventCodec.text (log.events ++ entries.map log.build_next)))
  anchor_file : (log.events = [] ∧ disk .audit_anchor = none) ∨ ∃ key, disk .audit_anchor =
    some (.text (anchorText (build_audit_anchor crates.sha256 ⟨key⟩ log)))

theorem Torn.overrun {c : Contents crates} {entry : AuditEntry} (h : Torn disk c entry) :
    Overrun disk c.log := by
  refine ⟨⟨[entry], List.cons_ne_nil _ _, h.audit_file⟩, ?_⟩
  rcases h.anchor_file with hempty | ⟨key, _, hanchor⟩
  · exact .inl hempty
  · exact .inr ⟨key, hanchor⟩

/-- What leaves both files alone keeps them so. -/
theorem Overrun.of_leaves {α ε : Type} {x : FileM StoreFile ε α} (h : Overrun disk log)
    (haudit : Leaves .audit x) (hanchor : Leaves .audit_anchor x) :
    wp x (fun _ d => Overrun d log) (fun d => Overrun d log) disk := by
  have hkept : ∀ d : Disk StoreFile, d .audit = disk .audit ∧ d .audit_anchor = disk .audit_anchor →
      Overrun d log :=
    fun d hd => ⟨hd.1 ▸ h.audit_file, hd.2 ▸ h.anchor_file⟩
  exact (wp.and (leaves_iff_wp.mp haudit disk) (leaves_iff_wp.mp hanchor disk)).mono
    (fun _ d hd => hkept d hd) hkept

/-- The rule for a step that leaves both files alone. -/
theorem Overrun.wp_bind {α β ε : Type} {x : FileM StoreFile ε α} {f : α → FileM StoreFile ε β}
    {R : β → Disk StoreFile → Prop} (h : Overrun disk log) (haudit : Leaves .audit x)
    (hanchor : Leaves .audit_anchor x)
    (hf : ∀ a d, Overrun d log → wp (f a) R (fun d => Overrun d log) d) :
    wp (x >>= f) R (fun d => Overrun d log) disk := by
  rw [files.wp_bind]
  exact (h.of_leaves haudit hanchor).mono (fun a d hd => hf a d hd) fun _ hd => hd

theorem leaves_load_or_create_anchor_key {path : StoreFile} (hpath : path ≠ .audit_anchor_key)
    (random : Except String { key : Bytes // key.length = 32 }) :
    Leaves path (load_or_create_anchor_key crates faults random) := by
  refine leaves_bind (leaves_fileExists _) fun present => ?_
  split
  · refine leaves_bind (leaves_mapError (leaves_readToString _)) fun raw => ?_
    split
    · exact leaves_pure _
    · exact leaves_throw _
  · refine leaves_bind (leaves_mapError (leaves_outcome _)) fun key => ?_
    refine leaves_bind (leaves_mapError (leaves_create hpath)) fun _ => ?_
    refine leaves_bind (leaves_mapError (leaves_write hpath _)) fun _ => ?_
    exact leaves_bind (leaves_mapError (leaves_attempt _ _)) fun _ => leaves_pure _

theorem readEvents_text (events : List BrokerAuditEvent) :
    readEvents crates (.text (eventCodec.text events)) = .ok events := by
  rw [readEvents, json_lines.foldLines_text, json_lines.foldRecords_collect, List.nil_append]

/-- A log that is read from lines has the events of the lines. -/
theorem events_of_auditLogOf {events : List BrokerAuditEvent} {log : BrokerAuditLog crates.sha256}
    (h : auditLogOf crates (.text (eventCodec.text events)) = .ok log) : log.events = events := by
  unfold auditLogOf at h
  rw [readEvents_text] at h
  change (BrokerAuditLog.from_verified_events crates.sha256 events).mapError _ = _ at h
  rcases hlog : BrokerAuditLog.from_verified_events crates.sha256 events with e | log'
  · rw [hlog] at h
    cases h
  · rw [hlog] at h
    cases h
    exact BrokerAuditLog.from_verified_events.spec.mp hlog

/-- The anchor counts fewer events than are read. -/
theorem Overrun.not_anchorVerifies (h : Overrun disk log) {key : Bytes}
    {log' : BrokerAuditLog crates.sha256} (hlen : log.events.length < log'.events.length) :
    ¬ AnchorVerifies crates faults key log' (disk .audit_anchor) := by
  rcases h.anchor_file with ⟨_, hnone⟩ | ⟨key', hanchor⟩
  · rw [hnone]
    intro hempty
    rw [AnchorVerifies] at hempty
    rw [hempty] at hlen
    exact Nat.not_lt_zero _ hlen
  · rw [hanchor]
    rintro ⟨_, _, hrecord⟩
    rw [Content.text, parse_anchorText, Option.some.injEq] at hrecord
    have hcount := congrArg AuditAnchorRecord.event_count hrecord
    exact absurd hcount (Nat.ne_of_lt hlen)

/-- A directory whose audit file ran ahead never opens, and stays as it is. -/
theorem Overrun.opening (h : Overrun disk log) (session_id : String) (now : I64)
    (random : Except String { key : Bytes // key.length = 32 }) :
    wp (open_or_create crates faults session_id now random) (fun _ _ => False)
      (fun d => Overrun d log) disk := by
  rw [open_or_create]
  refine h.wp_bind (leaves_mapError (leaves_attempt _ _)) (leaves_mapError (leaves_attempt _ _))
    fun _ d hd => ?_
  refine hd.wp_bind (leaves_load_or_create_anchor_key (by decide) _)
    (leaves_load_or_create_anchor_key (by decide) _) fun key d hd => ?_
  rw [files.wp_bind, ensure_file_exists, wp_mapError]
  refine wp_ensure (fun _ => ?_) fun _ => hd
  -- The audit file is there, so nothing is made.
  have hensured : Overrun (Function.update d .audit (some ((d .audit).getD (.text [])))) log := by
    obtain ⟨⟨entries, hne, hfile⟩, hanchor⟩ := hd
    exact ⟨⟨entries, hne, by rw [Function.update_self, hfile]; rfl⟩, hanchor⟩
  refine hensured.wp_bind (leaves_mapError (leaves_ensure (by decide)))
    (leaves_mapError (leaves_ensure (by decide))) fun _ d hd => ?_
  obtain ⟨entries, hne, hfile⟩ := hd.audit_file
  rw [files.wp_bind]
  refine wp.mono (wp.and (load_audit_log.outcome _ hfile)
    (hd.of_leaves (leaves_load_audit_log _) (leaves_load_audit_log _))) ?_ fun _ h => h.2
  rintro log' d' ⟨⟨rfl, _, hread⟩, hd⟩
  have hevents := events_of_auditLogOf hread
  have hlen : log.events.length < log'.events.length := by
    have hpos := List.length_pos_of_ne_nil hne
    rw [hevents, List.length_append, List.length_map]
    omega
  rw [files.wp_bind]
  refine wp.mono (wp.and (verify_audit_anchor.outcome key log')
    (hd.of_leaves (leaves_verify_audit_anchor _ _ _) (leaves_verify_audit_anchor _ _ _)))
    ?_ fun _ h => h.2
  rintro _ d' ⟨⟨_, hverifies⟩, _⟩
  exact absurd hverifies (hd.not_anchorVerifies hlen)

/-- Two events made for one place are not both in a verified log. -/
theorem not_verified_of_two {entries : List AuditEntry} (hlen : 2 ≤ entries.length) :
    ¬ Verified crates.sha256 (log.events ++ entries.map log.build_next) := by
  intro hverified
  have hi : log.events.length + 1 < (log.events ++ entries.map log.build_next).length := by
    rw [List.length_append, List.length_map]
    omega
  have hid := congrArg BrokerAuditEvent.event_id (hverified.get _ hi).1
  rw [List.getElem_append_right (by omega), List.getElem_map] at hid
  have := event_id_inj hid
  omega

/-- No append under a log that the file ran ahead of succeeds. -/
theorem Overrun.append (h : Overrun disk log) (store : BrokerPersistentStore) (entry : AuditEntry) :
    wp (append_audit_event crates faults store (log.build_next entry)) (fun _ _ => False)
      (fun d => Overrun d log) disk := by
  obtain ⟨⟨entries, hne, hfile⟩, hanchor⟩ := h
  rw [append_audit_event, files.wp_bind, wp_mapError]
  refine wp_appendLine (fun _ => ?_) fun _ => ⟨⟨entries, hne, hfile⟩, hanchor⟩
  have hline : ((disk .audit).getD (.text [])).append
      (eventCodec.line (log.build_next entry) ++ ['\n']) =
        .text (eventCodec.text (log.events ++ (entries ++ [entry]).map log.build_next)) := by
    rw [hfile, List.map_append, ← List.append_assoc, List.map_singleton, Option.getD_some,
      Content.append_text, eventCodec.text_snoc]
  rw [hline]
  have hoverrun : Overrun (Function.update disk .audit
      (some (.text (eventCodec.text (log.events ++ (entries ++ [entry]).map log.build_next)))))
      log :=
    ⟨⟨entries ++ [entry], by simp, Function.update_self ..⟩, hanchor⟩
  rw [files.wp_bind]
  refine wp.mono (wp.and (load_audit_log.outcome _ (Function.update_self ..))
    (hoverrun.of_leaves (leaves_load_audit_log _) (leaves_load_audit_log _))) ?_ fun _ h => h.2
  rintro log' d ⟨⟨_, _, hread⟩, _⟩
  refine absurd (events_of_auditLogOf hread ▸ log'.verified) (not_verified_of_two ?_)
  have hpos := List.length_pos_of_ne_nil hne
  rw [List.length_append, List.length_singleton]
  omega

end store

namespace protocol

variable {crates : Crates} {outside : Outside}

/-! ## Receipts -/

/-- What a response and the event that it names have in common. -/
structure Receipt where
  audit_event_id : String
  request_id : String
  operation : String
  deriving DecidableEq

def BrokerResponse.receipt (response : BrokerResponse) : Receipt :=
  ⟨response.audit_event_id, response.request_id, response.operation⟩

def receiptOf (event : BrokerAuditEvent) : Receipt :=
  ⟨event.event_id, event.request_id, event.operation⟩

/-- The receipts for the events of a log. -/
def receiptsOf (log : BrokerAuditLog crates.sha256) : List Receipt := log.events.map receiptOf

/-- No event has the id of the responses that name none. -/
theorem event_id_ne_unavailable (event_index : Nat) :
    event_id event_index ≠ "broker-audit-unavailable" := by
  intro h
  have hsplit : "broker-audit-unavailable" = "broker-audit-" ++ "unavailable" := by decide
  rw [event_id, hsplit] at h
  have hdigits : Nat.toDigits 10 event_index = "unavailable".toList :=
    String.toList_ofList.symm.trans (congrArg String.toList (String.append_right_inj _ |>.mp h))
  have hmem : 'u' ∈ Nat.toDigits 10 event_index := by
    rw [hdigits]
    decide
  exact absurd (Nat.isDigit_of_mem_toDigits (by decide) (by decide) hmem) (by decide)

namespace World

/-- The receipt of a call, when its response names an event. -/
def receipts (outside : Outside) (w : World crates) (call : Call) : List Receipt :=
  let response := (w.call outside call).1
  if response.audit_event_id = "broker-audit-unavailable" then [] else [response.receipt]

/-- The log in memory grows by the event of the receipt. -/
theorem receiptsOf_call (w : World crates) (call : Call) :
    receiptsOf (w.call outside call).2.broker.audit_log =
      receiptsOf w.broker.audit_log ++ w.receipts outside call := by
  unfold receipts
  generalize hr : w.call outside call = r
  have hcourse := World.call.course outside w call
  rw [hr] at hcourse
  cases hcourse with
  | @unaudited envelope response _ _ _ hid =>
    rw [if_pos hid, List.append_nil, (record_nonce.spec outside w envelope.nonceText).2]
  | @audited w₀ entry respond hstage hnames =>
    obtain ⟨_, hlog, _, _⟩ := hstage.spec
    rcases audited.spec outside w₀ entry respond with
      ⟨event, w', happend, haudited⟩ | ⟨e, w', happend, haudited⟩
    · obtain ⟨rfl, hbroker, _, _⟩ := append_audit_ok happend
      obtain ⟨hid, hrequest, hoperation⟩ := hnames w'.broker (w₀.broker.audit_log.build_next entry)
      have hevent : (respond w'.broker (w₀.broker.audit_log.build_next entry)).receipt =
          receiptOf (w₀.broker.audit_log.build_next entry) := by
        rw [BrokerResponse.receipt, hid, hrequest, hoperation]
        rfl
      rw [haudited]
      dsimp only
      rw [if_neg (hid ▸ event_id_ne_unavailable _), hevent, hbroker, ← hlog]
      exact List.map_append
    · obtain ⟨hbroker, _, _⟩ := append_audit_error happend
      rw [haudited, hbroker, ← hlog]
      exact (List.append_nil _).symm

end World

namespace Site

/-- The receipt that a step gives, if it gives one. -/
def receipts (s : Site crates) : Step → List Receipt
  | .opens .. => []
  | .serves call outside =>
    match s.running with
    | none => []
    | some broker => (s.world broker).receipts outside call

/-- The receipts of a run, in the order in which they were given. -/
def runReceipts : Site crates → List Step → List Receipt
  | _, [] => []
  | s, step :: steps => s.receipts step ++ (s.step step).runReceipts steps

/-! ## The log of a site -/

/-- The audit file ran ahead of the anchor. A running broker still has the log of the anchor. -/
structure CutOff (s : Site crates) (log : BrokerAuditLog crates.sha256) : Prop where
  overrun : Overrun s.disk log
  serves : ∀ broker, s.running = some broker →
    (∃ store, broker.state_store = .durable_file_store store) ∧ broker.audit_log = log

/-- The log of a site, which its files hold, or hold up to where an append was cut off. -/
def Keeps (s : Site crates) (log : BrokerAuditLog crates.sha256) : Prop :=
  (∃ c, s.On c ∧ c.log = log) ∨ s.CutOff log

theorem keeps_unopened (clock : I64) : (unopened clock : Site crates).Keeps .default :=
  .inl ⟨.fresh, on_unopened clock, rfl⟩

/-- Recording a nonce touches neither the audit file nor its anchor. -/
theorem append_replay_nonce.leaves {path : StoreFile} {faults : Faults StoreFile}
    (hpath : path ≠ .replay) (htemporary : path ≠ .replay_tmp) (nonce : String) (clock : I64) :
    Leaves path (append_replay_nonce crates faults nonce clock) :=
  leaves_bind (leaves_mapError (leaves_appendLine hpath _)) fun _ =>
    leaves_bind (leaves_load_replay_nonces _ clock) fun _ =>
      leaves_bind (leaves_mapError (leaves_atomic_write hpath htemporary _)) fun _ =>
        leaves_pure _

theorem overrun_record_nonce {w : World crates} {log : BrokerAuditLog crates.sha256}
    {store : BrokerPersistentStore} (hstore : w.broker.state_store = .durable_file_store store)
    (h : Overrun w.disk log) (nonce : String) :
    Overrun (w.record_nonce outside nonce).2.disk log := by
  have hleaves : ∀ path, path ≠ .replay → path ≠ .replay_tmp → Leaves path
      (append_replay_nonce crates outside.faults nonce outside.record_clock) :=
    fun path hpath htemporary => append_replay_nonce.leaves hpath htemporary nonce _
  have hspec := h.of_leaves (hleaves .audit (by decide) (by decide))
    (hleaves .audit_anchor (by decide) (by decide))
  rw [World.record_nonce_durable hstore]
  rcases hrun : append_replay_nonce crates outside.faults nonce outside.record_clock w.disk with
    ⟨nonces, d⟩ | ⟨e, d⟩
  · exact hspec.of_ok hrun
  · exact hspec.of_error hrun

theorem overrun_flagged {w : World crates} {log : BrokerAuditLog crates.sha256}
    (h : Overrun w.disk log) (operation : BrokerOperation) :
    Overrun (w.flagged operation).disk log := by
  cases operation <;> exact h

/-- Up to its append a call leaves the audit file and the anchor alone. -/
theorem overrun_stage {w w₀ : World crates} {log : BrokerAuditLog crates.sha256} {call : Call}
    {store : BrokerPersistentStore} (hstore : w.broker.state_store = .durable_file_store store)
    (h : Overrun w.disk log) (hstage : World.Stage outside w call w₀) : Overrun w₀.disk log := by
  cases hstage with
  | gates => exact h
  | recorded => exact overrun_record_nonce hstore h _
  | shutdown => exact overrun_flagged (overrun_record_nonce hstore h _) _

/-- A call under a log that the file ran ahead of appends nothing. -/
theorem overrun_call {w : World crates} {log : BrokerAuditLog crates.sha256}
    {store : BrokerPersistentStore} (hstore : w.broker.state_store = .durable_file_store store)
    (hlog : w.broker.audit_log = log) (h : Overrun w.disk log) (call : Call) :
    Overrun (w.call outside call).2.disk log ∧ (w.call outside call).2.broker.audit_log = log := by
  generalize hr : w.call outside call = r
  have hcourse := World.call.course outside w call
  rw [hr] at hcourse
  cases hcourse with
  | @unaudited envelope _ _ _ _ _ =>
    have hbroker := (World.record_nonce.spec outside w envelope.nonceText).2
    exact ⟨overrun_record_nonce hstore h _, by rw [hbroker]; exact hlog⟩
  | @audited w₀ entry respond hstage _ =>
    obtain ⟨_, hlog₀, hstore₀, _⟩ := hstage.spec
    have hspec : wp (append_audit_event crates outside.faults store (log.build_next entry))
        (fun _ _ => False) (fun d => Overrun d log) w₀.disk :=
      (overrun_stage hstore h hstage).append store entry
    rcases World.audited.spec outside w₀ entry respond with
      ⟨event, w', happend, _⟩ | ⟨e, w', happend, haudited⟩
    · obtain ⟨rfl, _, _, hrun⟩ := World.append_audit_ok happend
      rw [hstore₀, hstore, hlog₀, hlog] at hrun
      exact (hspec.of_ok hrun).elim
    · obtain ⟨hbroker, _, hrun⟩ := World.append_audit_error happend
      rw [hstore₀, hstore, hlog₀, hlog] at hrun
      rw [haudited, hbroker, hlog₀]
      exact ⟨hspec.of_error hrun, hlog⟩

theorem keeps_opens {s : Site crates} {log : BrokerAuditLog crates.sha256} (h : s.Keeps log)
    (faults : Faults StoreFile) (session_id : String) (now : I64)
    (random : Except String { key : Bytes // key.length = 32 }) :
    (s.step (.opens faults session_id now random)).Keeps log := by
  rcases h with ⟨c, hon, rfl⟩ | ⟨hoverrun, _⟩
  · rcases opens.spec hon faults session_id now random with
      ⟨_, broker, disk, key, hstep, _, hserves⟩ | ⟨_, disk, c', hstep, hd, hopening⟩
    · rw [hstep]
      refine .inl ⟨_, ⟨hserves.holds, fun b hb => ?_⟩, rfl⟩
      obtain rfl := Option.some.inj hb
      exact hserves
    · rw [hstep]
      exact .inl ⟨c', ⟨hd, fun _ hb => by cases hb⟩, hopening.log⟩
  · have hspec : wp (open_or_create crates faults session_id now random) (fun _ _ => False)
        (fun d => Overrun d log) s.disk := hoverrun.opening session_id now random
    rcases hrun : open_or_create crates faults session_id now random s.disk with
      ⟨opened, d⟩ | ⟨e, d⟩
    · exact (hspec.of_ok hrun).elim
    · have hstep : s.step (.opens faults session_id now random) =
          { s with disk := d, running := none, clock := now } := by
        rw [step, Broker.new_persistent]
        simp only [bind, EStateM.bind, hrun]
      rw [hstep]
      exact .inr ⟨hspec.of_error hrun, fun _ hb => by cases hb⟩

theorem keeps_serves {s : Site crates} {log : BrokerAuditLog crates.sha256} (h : s.Keeps log)
    {broker : Broker crates} (hrunning : s.running = some broker) (call : Call)
    (outside : Outside) :
    broker.audit_log = log ∧ (s.step (.serves call outside)).Keeps
      ((s.world broker).call outside call).2.broker.audit_log := by
  rw [step_serves_some hrunning]
  rcases h with ⟨c, hon, rfl⟩ | ⟨hoverrun, hserves⟩
  · have hbroker := hon.serves broker hrunning
    refine ⟨hbroker.audit_log, ?_⟩
    obtain ⟨c₁, hphase, haudit⟩ := World.call.spec hbroker outside call
    have hon' : ∀ {c' : Contents crates}, ((s.world broker).call outside call).2.Serves c' →
        Site.Keeps ⟨((s.world broker).call outside call).2.disk,
          some ((s.world broker).call outside call).2.broker, outside.record_clock,
          s.recorded ++ (s.world broker).recordings outside call⟩
          ((s.world broker).call outside call).2.broker.audit_log := by
      refine fun hserves => .inl ⟨_, ⟨hserves.holds, fun b hb => ?_⟩, hserves.audit_log.symm⟩
      obtain rfl := Option.some.inj hb
      exact hserves.forget
    cases haudit with
    | unaudited _ hserves => exact hon' hserves
    | appended _ hserves => exact hon' hserves
    | unwritten _ hserves => exact hon' hserves
    | torn _ _ _ hlog htorn =>
      obtain ⟨store, hstore, _⟩ := hbroker.durable
      refine .inr ⟨hlog ▸ htorn.overrun, fun b hb => ?_⟩
      obtain rfl := Option.some.inj hb
      exact ⟨⟨store, (World.state_store_call _ call).trans hstore⟩, rfl⟩
  · obtain ⟨⟨store, hstore⟩, hlog⟩ := hserves broker hrunning
    have hcall : Overrun ((s.world broker).call outside call).2.disk log ∧
        ((s.world broker).call outside call).2.broker.audit_log = log :=
      overrun_call hstore hlog hoverrun call
    refine ⟨hlog, .inr ⟨hcall.2 ▸ hcall.1, fun b hb => ?_⟩⟩
    obtain rfl := Option.some.inj hb
    exact ⟨⟨store, (World.state_store_call _ call).trans hstore⟩, rfl⟩

/-- A step adds to the log what it gives receipts for. -/
theorem keeps_step {s : Site crates} {log : BrokerAuditLog crates.sha256} (h : s.Keeps log)
    (step : Step) :
    ∃ log', (s.step step).Keeps log' ∧ receiptsOf log' = receiptsOf log ++ s.receipts step := by
  cases step with
  | opens faults session_id now random =>
    exact ⟨log, keeps_opens h faults session_id now random, (List.append_nil _).symm⟩
  | serves call outside =>
    rcases hrunning : s.running with _ | broker
    · rw [step_serves_none hrunning, receipts, hrunning]
      exact ⟨log, h, (List.append_nil _).symm⟩
    · obtain ⟨rfl, hkeeps⟩ := keeps_serves h hrunning call outside
      rw [receipts, hrunning]
      exact ⟨_, hkeeps, World.receiptsOf_call (s.world broker) call⟩

theorem keeps_run {s : Site crates} {log : BrokerAuditLog crates.sha256} (h : s.Keeps log)
    (steps : List Step) :
    ∃ log', (s.run steps).Keeps log' ∧ receiptsOf log' = receiptsOf log ++ s.runReceipts steps := by
  induction steps generalizing s log with
  | nil => exact ⟨log, h, (List.append_nil _).symm⟩
  | cons step steps ih =>
    obtain ⟨log₁, h₁, hreceipts₁⟩ := keeps_step h step
    obtain ⟨log₂, h₂, hreceipts₂⟩ := ih h₁
    exact ⟨log₂, h₂, by rw [hreceipts₂, hreceipts₁, List.append_assoc, runReceipts]⟩

/-! ## What the log keeps -/

/-- What opens, opens with the log of the site. -/
theorem audit_log_of_opens {s : Site crates} {log : BrokerAuditLog crates.sha256} (h : s.Keeps log)
    {faults : Faults StoreFile} {session_id : String} {now : I64}
    {random : Except String { key : Bytes // key.length = 32 }}
    {opened : BrokerPersistentStore × BrokerPersistentState crates.sha256} {disk : Disk StoreFile}
    (hopen : open_or_create crates faults session_id now random s.disk = .ok opened disk) :
    opened.2.audit_log = log := by
  rcases h with ⟨c, hon, rfl⟩ | ⟨hoverrun, _⟩
  · obtain ⟨_, hstate, _⟩ :=
      (open_or_create.spec faults session_id now random hon.holds).of_ok hopen
    rw [hstate]
  · exact ((hoverrun.opening session_id now random).of_ok hopen).elim

/-- The audit file begins with the events of the log. -/
theorem audit_file_of_keeps {s : Site crates} {log : BrokerAuditLog crates.sha256}
    (h : s.Keeps log) : ∃ more,
      (s.disk .audit).getD (.text []) = .text (eventCodec.text log.events ++ more) := by
  rcases h with ⟨c, hon, rfl⟩ | ⟨⟨⟨entries, _, hfile⟩, _⟩, _⟩
  · exact ⟨[], by rw [hon.holds.audit_file, List.append_nil]⟩
  · refine ⟨eventCodec.text (entries.map log.build_next), ?_⟩
    rw [hfile]
    exact congrArg Content.text (by rw [json_lines.Codec.text, List.map_append,
      json_lines.joinLines_append]; rfl)

theorem audit_log_of_running {s : Site crates} {log : BrokerAuditLog crates.sha256}
    (h : s.Keeps log) {broker : Broker crates} (hrunning : s.running = some broker) :
    broker.audit_log = log := by
  rcases h with ⟨c, hon, rfl⟩ | ⟨_, hserves⟩
  · exact (hon.serves broker hrunning).audit_log
  · exact (hserves broker hrunning).2

/-- One log is in the audit file, in memory and in whatever opens. -/
structure HasLog (s : Site crates) (log : BrokerAuditLog crates.sha256) : Prop where
  audit_file : ∃ more,
    (s.disk .audit).getD (.text []) = .text (eventCodec.text log.events ++ more)
  running : ∀ broker, s.running = some broker → broker.audit_log = log
  opens : ∀ faults session_id now random opened disk,
    open_or_create crates faults session_id now random s.disk = .ok opened disk →
      opened.2.audit_log = log

/-- After any run on a new directory, whatever operations failed, the directory has one log,
and its events are those that responses named, in the order of the responses. -/
theorem log_is_what_was_receipted (clock : I64) (steps : List Step) :
    ∃ log : BrokerAuditLog crates.sha256,
      receiptsOf log = (unopened clock : Site crates).runReceipts steps ∧
        ((unopened clock : Site crates).run steps).HasLog log := by
  obtain ⟨log, h, hreceipts⟩ := keeps_run (@keeps_unopened crates clock) steps
  exact ⟨log, hreceipts, audit_file_of_keeps h, fun _ hb => audit_log_of_running h hb,
    fun _ _ _ _ _ _ hopen => audit_log_of_opens h hopen⟩

/-- After a careful run the directory opens, with an event for each receipt and no other. -/
theorem receipts_survive_careful_run {clock : I64} {steps : List Step}
    (h : (unopened clock : Site crates).Runs Careful steps) (session_id : String) (now : I64)
    (key : { key : Bytes // key.length = 32 }) :
    ∃ opened disk, open_or_create crates noFaults session_id now (.ok key)
        ((unopened clock : Site crates).run steps).disk = .ok opened disk ∧
      receiptsOf opened.2.audit_log = (unopened clock : Site crates).runReceipts steps := by
  obtain ⟨log, hkeeps, hreceipts⟩ := keeps_run (@keeps_unopened crates clock) steps
  obtain ⟨c, hon, hloads⟩ := openable_of_reaches (reaches_run (.unopened clock) h)
  obtain ⟨store, disk, hopen, _⟩ := open_or_create_of_loads hon.holds hloads session_id now key
  refine ⟨_, disk, hopen, ?_⟩
  rw [audit_log_of_opens hkeeps hopen]
  exact hreceipts

/-- A process that serves two calls, the second one on a full disk, and a process after it. -/
def twoProcesses : List Step :=
  [.opens noFaults "session-1" newYear (.ok zeroKey),
    .serves (.handle (request .Health "nonce-1" [])) calm,
    .serves (.reject_ipc "ipc_frame_too_large" "frame too large" true) full,
    .opens noFaults "session-2" newYear (.ok zeroKey)]

theorem two_processes_survive : ∃ opened disk,
    open_or_create .ascii noFaults "session-3" newYear (.ok zeroKey)
        ((unopened newYear : Site .ascii).run twoProcesses).disk = .ok opened disk ∧
      receiptsOf opened.2.audit_log =
        (unopened newYear : Site .ascii).runReceipts twoProcesses := by
  suffices h : (unopened newYear : Site .ascii).Runs Careful twoProcesses from
    receipts_survive_careful_run h _ _ _
  refine ⟨?_, ?_, ?_, ?_, trivial⟩
  · show ¬ IsBlank "session-1"
    decide
  · intro broker _
    refine ⟨fun envelope hadmitted _ => ?_, .inr (.inr ⟨rfl, rfl, rfl⟩)⟩
    have henvelope : envelope = request .Health "nonce-1" [] :=
      (Option.some.inj (Option.filter_eq_some_iff.mp hadmitted).1).symm
    rw [henvelope]
    decide
  · intro broker _
    refine ⟨fun envelope hadmitted => ?_, .inr (.inl ?_)⟩
    · simp [World.admitted, Call.envelope] at hadmitted
    · simp [full]
  · show ¬ IsBlank "session-2"
    decide

end Site

end protocol
