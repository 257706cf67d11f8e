-- The lines of a connection (broker/ipc_server.rs) and how its bytes arrive. A stream has its
-- lines by its bytes alone; the loop that reads a line in chunks gives the same line and leaves
-- the bytes after it.
import GuiShell.Broker.IpcServer
import Mathlib.Data.List.Induction

namespace ipc_server

/-! ## The lines of a stream -/

/-- The bytes up to and including the first newline, and those after it. Without a newline the
line goes to the end. -/
def firstLine (bytes : Bytes) : Bytes × Bytes :=
  match bytes.dropWhile fun byte => byte ≠ newline with
  | [] => (bytes, [])
  | _ :: rest => (bytes.takeWhile (fun byte => byte ≠ newline) ++ [newline], rest)

/-- The line that a read gives, none at the end of the stream, and the bytes after it. -/
def lineOf (max_bytes : Nat) (bytes : Bytes) : Except IpcLineError (Option Bytes) × Bytes :=
  if bytes = [] then (.ok none, [])
  else
    let (line, rest) := firstLine bytes
    (if max_bytes < line.length then .error .Oversized else .ok (some line), rest)

/-- What `read_limited_line` makes of a line: it is trimmed and must be UTF-8. -/
def textOf (utf8_error : Bytes → String) :
    Except IpcLineError (Option Bytes) → Except IpcLineError (Option String)
  | .error error => .error error
  | .ok none => .ok none
  | .ok (some line) =>
    match utf8.decode (trimEnd line) with
    | some text => .ok (some text)
    | none => .error (.Io ("broker IPC lineがUTF-8ではない: " ++ utf8_error (trimEnd line)))

def IsLineEnd (byte : UInt8) : Prop := byte = newline ∨ byte = carriageReturn

/-- The text of a line: nothing but newlines and carriage returns stand after it, and it does not
end in one. -/
def IsTextOf (line text : Bytes) : Prop :=
  (∃ ending, line = text ++ ending ∧ ∀ byte ∈ ending, IsLineEnd byte) ∧
    ∀ byte, text.getLast? = some byte → ¬ IsLineEnd byte

/-- What a read gives for a line, none at the end of the stream: the text of the line when that is
UTF-8. -/
inductive Outcome (utf8_error : Bytes → String) :
    Except IpcLineError (Option Bytes) → Except IpcLineError (Option String) → Prop
  | ended : Outcome utf8_error (.ok none) (.ok none)
  | failed (error : IpcLineError) : Outcome utf8_error (.error error) (.error error)
  | read {line text : Bytes} {chars : String} (htext : IsTextOf line text)
      (hdecode : utf8.decode text = some chars) :
      Outcome utf8_error (.ok (some line)) (.ok (some chars))
  | invalid {line text : Bytes} (htext : IsTextOf line text) (hdecode : utf8.decode text = none) :
      Outcome utf8_error (.ok (some line))
        (.error (.Io ("broker IPC lineがUTF-8ではない: " ++ utf8_error text)))

/-- The text of a line is what `trimEnd` leaves of it. The induction takes the bytes of the line
from its end. -/
theorem isTextOf_iff {line text : Bytes} : IsTextOf line text ↔ trimEnd line = text := by
  induction line using List.reverseRecOn generalizing text with
  | nil =>
    constructor
    · rintro ⟨⟨ending, hline, _⟩, _⟩
      exact (List.append_eq_nil_iff.mp hline.symm).1.symm
    · rintro rfl
      exact ⟨⟨[], rfl, by simp⟩, by simp [trimEnd]⟩
  | append_singleton line byte ih =>
    by_cases hend : IsLineEnd byte
    · have htrim : trimEnd (line ++ [byte]) = trimEnd line := by
        unfold trimEnd
        rw [List.reverse_concat, List.dropWhile_cons_of_pos (by simpa [IsLineEnd] using hend)]
      rw [htrim, ← ih]
      constructor
      · rintro ⟨⟨ending, hline, hending⟩, hlast⟩
        rcases List.eq_nil_or_concat ending with rfl | ⟨ending, last, rfl⟩
        · rw [List.append_nil] at hline
          refine absurd hend (hlast byte ?_)
          rw [← hline, List.getLast?_concat]
        · rw [List.concat_eq_append, ← List.append_assoc] at hline
          rw [List.concat_eq_append] at hending
          obtain ⟨rfl, _⟩ := List.append_inj' hline rfl
          exact ⟨⟨ending, rfl, fun b hb => hending b (List.mem_append_left _ hb)⟩, hlast⟩
      · rintro ⟨⟨ending, rfl, hending⟩, hlast⟩
        refine ⟨⟨ending ++ [byte], List.append_assoc .., fun b hb => ?_⟩, hlast⟩
        rcases List.mem_append.mp hb with hb | hb
        · exact hending b hb
        · rw [List.mem_singleton.mp hb]
          exact hend
    · have htrim : trimEnd (line ++ [byte]) = line ++ [byte] := by
        unfold trimEnd
        rw [List.reverse_concat, List.dropWhile_cons_of_neg (by simpa [IsLineEnd] using hend),
          List.reverse_cons, List.reverse_reverse]
      rw [htrim]
      constructor
      · rintro ⟨⟨ending, hline, hending⟩, _⟩
        rcases List.eq_nil_or_concat ending with rfl | ⟨ending, last, rfl⟩
        · rw [hline, List.append_nil]
        · rw [List.concat_eq_append, ← List.append_assoc] at hline
          obtain ⟨_, hlast⟩ := List.append_inj' hline rfl
          obtain rfl := List.singleton_inj.mp hlast
          exact absurd (hending byte (by simp)) hend
      · rintro rfl
        refine ⟨⟨[], (List.append_nil _).symm, by simp⟩, fun b hb => ?_⟩
        rw [List.getLast?_concat] at hb
        rw [← Option.some.inj hb]
        exact hend

/-- `read_limited_line` makes of a line what a read gives for it, and nothing else. -/
theorem outcome_iff {utf8_error : Bytes → String} {line : Except IpcLineError (Option Bytes)}
    {text : Except IpcLineError (Option String)} :
    Outcome utf8_error line text ↔ textOf utf8_error line = text := by
  constructor
  · rintro (_ | _ | ⟨htext, hdecode⟩ | ⟨htext, hdecode⟩)
    · rfl
    · rfl
    · rw [textOf, isTextOf_iff.mp htext, hdecode]
    · rw [textOf, isTextOf_iff.mp htext, hdecode]
  · rintro rfl
    rcases line with error | _ | line
    · exact .failed error
    · exact .ended
    · rcases hdecode : utf8.decode (trimEnd line) with _ | chars
      · rw [textOf, hdecode]
        exact .invalid (isTextOf_iff.mpr rfl) hdecode
      · rw [textOf, hdecode]
        exact .read (isTextOf_iff.mpr rfl) hdecode

theorem firstLine_of_no_newline {bytes : Bytes} (h : newline ∉ bytes) :
    firstLine bytes = (bytes, []) := by
  have hdrop : bytes.dropWhile (fun byte => byte ≠ newline) = [] := by
    rw [List.dropWhile_eq_nil_iff]
    intro byte hbyte
    exact decide_eq_true fun heq => h (heq ▸ hbyte)
  unfold firstLine
  rw [hdrop]

theorem firstLine_append_newline {bytes : Bytes} (h : newline ∉ bytes) (rest : Bytes) :
    firstLine (bytes ++ newline :: rest) = (bytes ++ [newline], rest) := by
  have hall : ∀ byte ∈ bytes, decide (byte ≠ newline) = true := fun byte hbyte =>
    decide_eq_true fun heq => h (heq ▸ hbyte)
  unfold firstLine
  rw [List.dropWhile_append_of_pos hall, List.dropWhile_cons_of_neg (by simp),
    List.takeWhile_append_of_pos hall, List.takeWhile_cons_of_neg (by simp), List.append_nil]

/-- The line is no shorter than the bytes before the first newline. -/
theorem length_le_firstLine {bytes : Bytes} (h : newline ∉ bytes) (more : Bytes) :
    bytes.length ≤ (firstLine (bytes ++ more)).1.length := by
  by_cases hmem : newline ∈ more
  · obtain ⟨a, b, rfl, ha⟩ := List.eq_append_cons_of_mem hmem
    have hboth : newline ∉ bytes ++ a := by
      rw [List.mem_append, not_or]
      exact ⟨h, ha⟩
    rw [← List.append_assoc, firstLine_append_newline hboth]
    simp only [List.length_append]
    omega
  · rw [firstLine_of_no_newline (by rw [List.mem_append, not_or]; exact ⟨h, hmem⟩)]
    simp

/-! ## The loop over the chunks -/

/-- What arrives in chunks. The stream ends after the last one. -/
def arriving (chunks : List Bytes) : Reader := chunks.map .ok

theorem takeOf_of_no_newline {chunk : Bytes} (h : newline ∉ chunk) :
    takeOf chunk = chunk.length := by
  have hfind : chunk.findIdx? (fun byte => byte = newline) = none := by
    rw [List.findIdx?_eq_none_iff]
    intro byte hbyte
    exact decide_eq_false fun heq => h (heq ▸ hbyte)
  unfold takeOf
  rw [hfind]

theorem takeOf_append_newline {bytes : Bytes} (h : newline ∉ bytes) (rest : Bytes) :
    takeOf (bytes ++ newline :: rest) = bytes.length + 1 := by
  have hfind : bytes.findIdx? (fun byte => byte = newline) = none := by
    rw [List.findIdx?_eq_none_iff]
    intro byte hbyte
    exact decide_eq_false fun heq => h (heq ▸ hbyte)
  have hcons : (newline :: rest).findIdx? (fun byte => byte = newline) = some 0 := by
    rw [List.findIdx?_cons]
    simp
  unfold takeOf
  rw [List.findIdx?_append, hfind, hcons]
  simp

/-- The loop gives the line of all bytes, those in the buffer and those that arrive. -/
structure Reads (max_bytes : Nat) (bytes : Bytes)
    (result : Except IpcLineError (Option Bytes) × Reader) : Prop where
  line : result.1 = (lineOf max_bytes bytes).1
  rest : ∀ line, result.1 = .ok line → ∃ chunks, (∀ chunk ∈ chunks, chunk ≠ []) ∧
    result.2 = arriving chunks ∧ chunks.flatten = (lineOf max_bytes bytes).2

theorem lineOf_of_line (max_bytes : Nat) {bytes line rest : Bytes} (hne : bytes ≠ [])
    (h : firstLine bytes = (line, rest)) :
    lineOf max_bytes bytes =
      (if max_bytes < line.length then .error .Oversized else .ok (some line), rest) := by
  unfold lineOf
  rw [if_neg hne, h]

theorem reads_oversized {max_bytes : Nat} {bytes : Bytes} (hne : bytes ≠ [])
    (h : max_bytes < (firstLine bytes).1.length) (reader : Reader) :
    Reads max_bytes bytes (.error .Oversized, reader) where
  line := by rw [lineOf_of_line max_bytes hne (Prod.mk.eta (p := firstLine bytes)).symm, if_pos h]
  rest line hline := by cases hline

theorem fillLine_chunk (max_bytes : Nat) (buffer : Bytes) {chunk : Bytes} (hne : chunk ≠ [])
    (chunks : List Bytes) : fillLine max_bytes buffer (arriving (chunk :: chunks)) =
      (if max_bytes < buffer.length + takeOf chunk then
        (.error .Oversized, consume (takeOf chunk) chunk (arriving chunks))
      else if (buffer ++ chunk.take (takeOf chunk)).getLast? = some newline then
        (.ok (some (buffer ++ chunk.take (takeOf chunk))),
          consume (takeOf chunk) chunk (arriving chunks))
      else fillLine max_bytes (buffer ++ chunk.take (takeOf chunk)) (arriving chunks)) := by
  show fillLine max_bytes buffer (.ok chunk :: arriving chunks) = _
  rw [fillLine, if_neg hne]

/-- What is left of a chunk is the next one, if anything is left. -/
theorem consume_append (a b : Bytes) (chunks : List Bytes) (h : ∀ chunk ∈ chunks, chunk ≠ []) :
    ∃ chunks', (∀ chunk ∈ chunks', chunk ≠ []) ∧
      consume a.length (a ++ b) (arriving chunks) = arriving chunks' ∧
      chunks'.flatten = b ++ chunks.flatten := by
  unfold consume
  by_cases hb : b = []
  · subst hb
    refine ⟨chunks, h, ?_, rfl⟩
    rw [if_neg (by simp)]
  · have hpos := List.length_pos_iff.mpr hb
    refine ⟨b :: chunks, ?_, ?_, rfl⟩
    · intro chunk hchunk
      rcases List.mem_cons.mp hchunk with rfl | hchunk
      · exact hb
      · exact h chunk hchunk
    · rw [if_pos (by rw [List.length_append]; omega), List.drop_left]
      rfl

/-- The line ends in the next chunk. -/
theorem fillLine_reads_newline (max_bytes : Nat) {chunks : List Bytes}
    (hchunks : ∀ chunk ∈ chunks, chunk ≠ []) {buffer a : Bytes} (b : Bytes)
    (hline : newline ∉ buffer ++ a) :
    Reads max_bytes (buffer ++ a ++ newline :: (b ++ chunks.flatten))
      (fillLine max_bytes buffer (arriving ((a ++ newline :: b) :: chunks))) := by
  have ha : newline ∉ a := fun hmem => hline (List.mem_append_right _ hmem)
  have htake : (a ++ newline :: b).take (a.length + 1) = a ++ [newline] := by
    rw [List.take_append, List.take_of_length_le (Nat.le_succ _)]
    simp
  have hfirst := firstLine_append_newline hline (b ++ chunks.flatten)
  have hne : buffer ++ a ++ newline :: (b ++ chunks.flatten) ≠ [] := by simp
  rw [fillLine_chunk max_bytes buffer (by simp), takeOf_append_newline ha, htake]
  by_cases hlong : max_bytes < buffer.length + (a.length + 1)
  · rw [if_pos hlong]
    refine reads_oversized hne ?_ _
    rw [hfirst]
    simp only [List.length_append, List.length_singleton]
    omega
  · have hof := lineOf_of_line max_bytes hne hfirst
    rw [if_neg (by simp only [List.length_append, List.length_singleton]; omega)] at hof
    rw [if_neg hlong, ← List.append_assoc, List.getLast?_concat, if_pos rfl]
    refine ⟨by rw [hof], fun _ _ => ?_⟩
    have hconsume := consume_append (a ++ [newline]) b chunks hchunks
    rw [List.length_append, List.length_singleton, List.append_assoc, List.singleton_append]
      at hconsume
    rw [hof]
    exact hconsume

/-- The loop, with a buffer that has no newline in it. The induction is on the chunks. -/
theorem fillLine_reads (max_bytes : Nat) {chunks : List Bytes}
    (hchunks : ∀ chunk ∈ chunks, chunk ≠ []) {buffer : Bytes} (hbuffer : newline ∉ buffer)
    (hfits : buffer.length ≤ max_bytes) :
    Reads max_bytes (buffer ++ chunks.flatten) (fillLine max_bytes buffer (arriving chunks)) := by
  induction chunks generalizing buffer with
  | nil =>
    have hfill : fillLine max_bytes buffer (arriving []) =
        (.ok (if buffer = [] then none else some buffer), []) := by
      show fillLine max_bytes buffer [] = _
      rw [fillLine]
    rw [hfill, List.flatten_nil, List.append_nil]
    by_cases hnil : buffer = []
    · subst hnil
      exact ⟨rfl, fun _ _ => ⟨[], by simp, rfl, rfl⟩⟩
    · have hline := lineOf_of_line max_bytes hnil (firstLine_of_no_newline hbuffer)
      rw [if_neg (by omega)] at hline
      rw [if_neg hnil]
      refine ⟨by rw [hline], fun _ _ => ⟨[], by simp, rfl, by rw [hline]; rfl⟩⟩
  | cons chunk chunks ih =>
    have hne : chunk ≠ [] := hchunks chunk List.mem_cons_self
    have hrest : ∀ c ∈ chunks, c ≠ [] := fun c hc => hchunks c (List.mem_cons_of_mem _ hc)
    by_cases hmem : newline ∈ chunk
    · obtain ⟨a, b, rfl, ha⟩ := List.eq_append_cons_of_mem hmem
      have hboth : newline ∉ buffer ++ a := by
        rw [List.mem_append, not_or]
        exact ⟨hbuffer, ha⟩
      have := fillLine_reads_newline max_bytes hrest b hboth
      simpa only [List.flatten_cons, List.append_assoc, List.cons_append] using this
    · -- The whole chunk belongs to the line.
      have hboth : newline ∉ buffer ++ chunk := by
        rw [List.mem_append, not_or]
        exact ⟨hbuffer, hmem⟩
      rw [fillLine_chunk max_bytes buffer hne, takeOf_of_no_newline hmem, List.take_length,
        List.flatten_cons, ← List.append_assoc]
      by_cases hlong : max_bytes < buffer.length + chunk.length
      · rw [if_pos hlong]
        refine reads_oversized (by simp [hne]) ?_ _
        have hle := length_le_firstLine hboth chunks.flatten
        rw [List.length_append] at hle
        omega
      · have hlast : (buffer ++ chunk).getLast? ≠ some newline := fun hsome =>
          hboth (List.mem_of_getLast? hsome)
        rw [if_neg hlong, if_neg hlast]
        exact ih hrest hboth (by rw [List.length_append]; omega)

/-! ## The reads of a connection -/

variable (utf8_error : Bytes → String)

theorem read_limited_line_eq (reader : Reader) (max_bytes : Nat) :
    read_limited_line utf8_error reader max_bytes =
      (textOf utf8_error (fillLine max_bytes [] reader).1, (fillLine max_bytes [] reader).2) := by
  unfold read_limited_line textOf
  rcases fillLine max_bytes [] reader with ⟨error | _ | buffer, rest⟩
  · rfl
  · rfl
  · dsimp only
    rcases utf8.decode (trimEnd buffer) with _ | text
    · rfl
    · rfl

/-- A read is the line of the bytes that arrive. After it the bytes after the line arrive. -/
theorem read_limited_line_arriving (max_bytes : Nat) {chunks : List Bytes}
    (hchunks : ∀ chunk ∈ chunks, chunk ≠ []) :
    (read_limited_line utf8_error (arriving chunks) max_bytes).1 =
        textOf utf8_error (lineOf max_bytes chunks.flatten).1 ∧
      ∀ text, (read_limited_line utf8_error (arriving chunks) max_bytes).1 = .ok text →
        ∃ chunks', (∀ chunk ∈ chunks', chunk ≠ []) ∧
          (read_limited_line utf8_error (arriving chunks) max_bytes).2 = arriving chunks' ∧
          chunks'.flatten = (lineOf max_bytes chunks.flatten).2 := by
  have hreads := fillLine_reads max_bytes hchunks (List.not_mem_nil (a := newline)) (Nat.zero_le _)
  rw [List.nil_append] at hreads
  rw [read_limited_line_eq]
  refine ⟨by rw [hreads.line], fun text htext => ?_⟩
  rcases hfill : (fillLine max_bytes [] (arriving chunks)).1 with error | line
  · rw [hfill] at htext
    cases htext
  · exact hreads.rest line hfill

/-- The outcome of the read of the auth line and, when there is one, that of the read of the
request line, from a reader. -/
def readLines (max_request_bytes : Nat) (reader : Reader) :
    Except IpcLineError (Option String) × Option (Except IpcLineError (Option String)) :=
  let (auth_line, rest) := read_limited_line utf8_error reader AUTH_LINE_MAX_BYTES
  (auth_line, match auth_line with
    | .ok (some _) => some (read_limited_line utf8_error rest max_request_bytes).1
    | _ => none)

/-- The two outcomes by the bytes of the stream: the request line is the line of the bytes after
the auth line, and is read when there is an auth line. -/
inductive LinesOf (max_request_bytes : Nat) (bytes : Bytes) :
    Except IpcLineError (Option String) × Option (Except IpcLineError (Option String)) → Prop
  | auth_only {auth_line : Except IpcLineError (Option String)}
      (hauth : Outcome utf8_error (lineOf AUTH_LINE_MAX_BYTES bytes).1 auth_line)
      (hnone : ∀ text, auth_line ≠ .ok (some text)) :
      LinesOf max_request_bytes bytes (auth_line, none)
  | both {text : String} {request_line : Except IpcLineError (Option String)}
      (hauth : Outcome utf8_error (lineOf AUTH_LINE_MAX_BYTES bytes).1 (.ok (some text)))
      (hrequest : Outcome utf8_error
        (lineOf max_request_bytes (lineOf AUTH_LINE_MAX_BYTES bytes).2).1 request_line) :
      LinesOf max_request_bytes bytes (.ok (some text), some request_line)

/-- However a stream is cut into chunks, its two lines are read by its bytes. -/
theorem readLines_arriving (max_request_bytes : Nat) (chunks : List Bytes)
    (hchunks : ∀ chunk ∈ chunks, chunk ≠ [])
    (outcomes : Except IpcLineError (Option String) ×
      Option (Except IpcLineError (Option String))) :
    readLines utf8_error max_request_bytes (arriving chunks) = outcomes ↔
      LinesOf utf8_error max_request_bytes chunks.flatten outcomes := by
  obtain ⟨hauth, hrest⟩ := read_limited_line_arriving utf8_error AUTH_LINE_MAX_BYTES hchunks
  have hafter (text : String)
      (htext : textOf utf8_error (lineOf AUTH_LINE_MAX_BYTES chunks.flatten).1 =
        .ok (some text)) :
      (read_limited_line utf8_error
          (read_limited_line utf8_error (arriving chunks) AUTH_LINE_MAX_BYTES).2
          max_request_bytes).1 =
        textOf utf8_error (lineOf max_request_bytes
          (lineOf AUTH_LINE_MAX_BYTES chunks.flatten).2).1 := by
    obtain ⟨chunks', hchunks', hreader, hflatten⟩ := hrest _ (hauth.trans htext)
    rw [hreader, (read_limited_line_arriving utf8_error max_request_bytes hchunks').1, hflatten]
  unfold readLines
  dsimp only
  rw [hauth]
  constructor
  · rintro rfl
    rcases htext : textOf utf8_error (lineOf AUTH_LINE_MAX_BYTES chunks.flatten).1 with
      error | _ | text
    · exact .auth_only (outcome_iff.mpr htext) fun text h => by cases h
    · exact .auth_only (outcome_iff.mpr htext) fun text h => by cases h
    · exact .both (outcome_iff.mpr htext) (outcome_iff.mpr (hafter text htext).symm)
  · rintro (⟨hline, hnone⟩ | ⟨hline, hrequest⟩)
    · rw [outcome_iff.mp hline]
      rename_i auth_line
      rcases auth_line with error | _ | text
      · rfl
      · rfl
      · exact absurd rfl (hnone text)
    · have htext := outcome_iff.mp hline
      rw [htext, hafter _ htext, outcome_iff.mp hrequest]

/-- A line and a request that are cut in the middle, and the carriage return from its newline. -/
def cutStream : List Bytes :=
  [utf8.encode "sec", utf8.encode "ret\r", utf8.encode "\n\x7b", utf8.encode "\x7d\r\n"]

theorem readLines_arriving_cutStream : LinesOf (fun _ => "") 64 cutStream.flatten
    (.ok (some "secret"), some (.ok (some "\x7b\x7d"))) :=
  (readLines_arriving (fun _ => "") 64 cutStream (by decide +kernel) _).mp (by decide +kernel)

end ipc_server
