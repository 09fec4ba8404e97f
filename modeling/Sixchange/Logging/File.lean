import Sixchange.Codec.Encoding
import Sixchange.Logging.Capacity
import Sixchange.Logging.Formatting
import Sixchange.Model.LogFile

namespace Sixchange

structure LogEntry where
  timestamp : Bytes
  level : Bytes
  function : Bytes
  message : Bytes
  deriving DecidableEq

namespace LogEntry

def text (entry : LogEntry) : Bytes :=
  entry.timestamp ++ 32 :: (entry.level ++ 32 :: (entry.function ++ 32 :: entry.message))

def read (line : Bytes) : Option LogEntry :=
  match line.splitOn 32 with
  | timestamp :: level :: function :: message =>
    some { timestamp, level, function, message := [32].intercalate message }
  | _ => none

def readAll (file : Bytes) : List LogEntry := (file.splitOn 10).filterMap read

structure Legible (entry : LogEntry) : Prop where
  timestamp : 32 ∉ entry.timestamp
  level : 32 ∉ entry.level
  function : 32 ∉ entry.function
  one_line : 10 ∉ entry.text

theorem Legible.read_text {entry : LogEntry} (h : entry.Legible) : read entry.text = some entry := by
  unfold read text
  rw [List.splitOn_append_cons_self_of_not_mem h.timestamp, List.splitOn_append_cons_self_of_not_mem h.level,
    List.splitOn_append_cons_self_of_not_mem h.function]
  dsimp only
  rw [List.intercalate_splitOn]

theorem readAll_texts {entries : List LogEntry} (h : ∀ entry ∈ entries, entry.Legible) :
    readAll (entries.flatMap fun entry => entry.text ++ ascii "\n") = entries := by
  induction entries with
  | nil => rfl
  | cons entry entries ih =>
    rw [List.forall_mem_cons] at h
    rw [List.flatMap_cons, List.append_assoc, readAll]
    change ((entry.text ++ 10 :: _).splitOn 10).filterMap read = _
    rw [List.splitOn_append_cons_self_of_not_mem h.1.one_line, List.filterMap_cons_some h.1.read_text]
    exact congrArg (entry :: ·) (ih h.2)

end LogEntry

namespace AsyncFileLogger

open Grammar
open scoped List

section Rfind

variable {text pattern : Bytes} {position i j : ℕ}

theorem not_prefix_of_rfind (h : rfind text pattern position = some i) (hlt : i < j) (hposition : j ≤ position)
    (hlength : j ≤ text.length) : ¬ pattern <+: text.drop j := by
  unfold rfind at h
  dsimp only at h
  split_ifs at h
  obtain rfl := Option.some.inj h
  exact Nat.findGreatest_is_greatest hlt (le_min hposition hlength)

theorem rfind_none (h : rfind text pattern position = none) (hposition : i ≤ position) (hlength : i ≤ text.length) :
    ¬ pattern <+: text.drop i := by
  unfold rfind at h
  dsimp only at h
  split_ifs at h with hstart
  intro hi
  exact hstart (Nat.findGreatest_spec (P := fun i => pattern <+: text.drop i) (le_min hposition hlength) hi)

theorem space_prefix {text : Bytes} (h : 32 ∈ text) : ∃ i < text.length, [32] <+: text.drop i := by
  obtain ⟨before, after, rfl⟩ := List.append_of_mem h
  refine ⟨before.length, by simp, ?_⟩
  rw [List.drop_left]
  exact ⟨after, rfl⟩

theorem space_not_mem_afterFinalSpace (name : Bytes) : 32 ∉ afterFinalSpace name := by
  intro hmem
  unfold afterFinalSpace at hmem
  cases hspace : rfind name [32] name.length with
  | none =>
    rw [hspace] at hmem
    obtain ⟨i, hlt, hfound⟩ := space_prefix hmem
    exact rfind_none hspace hlt.le hlt.le hfound
  | some finalSpace =>
    rw [hspace] at hmem
    obtain ⟨i, hlt, hfound⟩ := space_prefix hmem
    rw [List.drop_drop] at hfound
    rw [List.length_drop] at hlt
    exact not_prefix_of_rfind hspace (by omega) (by omega) (by omega) hfound

end Rfind

theorem afterFinalSpace_sublist (name : Bytes) : afterFinalSpace name <+ name := by
  unfold afterFinalSpace
  split
  · exact List.Sublist.refl _
  · exact List.drop_sublist _ _

theorem afterPreviousSeparator_sublist (name : Bytes) : afterPreviousSeparator name <+ name := by
  unfold afterPreviousSeparator
  split
  · exact List.Sublist.refl _
  · exact List.Sublist.refl _
  · split
    · exact List.Sublist.refl _
    · exact List.drop_sublist _ _

theorem space_not_mem_shortFunctionName (fullName : Bytes) : 32 ∉ shortFunctionName fullName := by
  intro hmem
  exact space_not_mem_afterFinalSpace _ ((afterPreviousSeparator_sublist _).subset hmem)

theorem shortFunctionName_sublist (fullName : Bytes) : shortFunctionName fullName <+ fullName :=
  ((afterPreviousSeparator_sublist _).trans (afterFinalSpace_sublist _)).trans (List.takeWhile_sublist _)

theorem isPlain_of_mem_padded {width n : ℕ} {b : UInt8} (h : b ∈ padded width n) : IsPlain b := by
  rcases List.mem_append.mp h with h | h
  · rw [List.eq_of_mem_replicate h]
    decide
  · exact TextCodec.isPlain_of_mem_decimal h

theorem writeTimestamp_plain (now : LocalTime) : AllPlain (writeTimestamp now) := by
  intro b hb
  simp only [writeTimestamp, List.mem_append] at hb
  rcases hb with (((((((((((hb | hb) | hb) | hb) | hb) | hb) | hb) | hb) | hb) | hb) | hb) | hb) | hb
  all_goals first
    | exact TextCodec.isPlain_of_mem_decimal hb
    | exact isPlain_of_mem_padded hb
    | exact List.mem_singleton.mp hb ▸ (by decide)

theorem levelName_plain (level : LogLevel) : AllPlain (levelName level) := by
  cases level <;> decide

section Message

variable {arguments : CapturedArguments} {written : Written} {format : Bytes}

theorem mem_writeArgumentOr {index : Option ℕ} {braced : Bytes} (h : written ∈ writeArgumentOr arguments index braced) :
    (∃ c ∈ braced, written = .char c) ∨ ∃ argument ∈ arguments.values, written = .argument argument := by
  unfold writeArgumentOr at h
  split at h
  · next argument hargument =>
    obtain ⟨n, -, hget⟩ := Option.bind_eq_some_iff.mp hargument
    exact .inr ⟨argument, List.mem_of_getElem? hget, List.mem_singleton.mp h⟩
  · obtain ⟨c, hc, rfl⟩ := List.mem_map.mp h
    exact .inl ⟨c, hc, rfl⟩

theorem Reads.mem_renderFrom {segments : List Segment} (h : Reads format segments) {index : Bytes → Option ℕ} (next : ℕ)
    (hwritten : written ∈ renderFrom index arguments next segments) :
    (∃ c ∈ format, written = .char c) ∨ ∃ argument ∈ arguments.values, written = .argument argument := by
  induction h generalizing next with
  | nil => cases hwritten
  | openBrace h ih =>
    rcases List.mem_cons.mp hwritten with rfl | hwritten
    · exact .inl ⟨123, List.mem_cons_self, rfl⟩
    · refine (ih next hwritten).imp_left fun ⟨c, hc, he⟩ => ⟨c, ?_, he⟩
      exact List.mem_cons_of_mem _ (List.mem_cons_of_mem _ hc)
  | closeBrace h ih =>
    rcases List.mem_cons.mp hwritten with rfl | hwritten
    · exact .inl ⟨125, List.mem_cons_self, rfl⟩
    · refine (ih next hwritten).imp_left fun ⟨c, hc, he⟩ => ⟨c, ?_, he⟩
      exact List.mem_cons_of_mem _ (List.mem_cons_of_mem _ hc)
  | @placeholder _ content rest _ hformat hcontent hbrace h ih =>
    subst hformat
    have hbraced : ∀ {index : Option ℕ}, written ∈ writeArgumentOr arguments index (123 :: content ++ [125]) →
        (∃ c ∈ 123 :: (content ++ 125 :: rest), written = .char c) ∨
          ∃ argument ∈ arguments.values, written = .argument argument := by
      intro index hmem
      refine (mem_writeArgumentOr hmem).imp_left fun ⟨c, hc, he⟩ => ⟨c, ?_, he⟩
      simp only [List.cons_append, List.mem_cons, List.mem_append, List.not_mem_nil, or_false] at hc ⊢
      rcases hc with hc | hc | hc
      exacts [.inl hc, .inr (.inl hc), .inr (.inr (.inl hc))]
    have hrest : (∃ c ∈ rest, written = .char c) ∨ (∃ argument ∈ arguments.values, written = .argument argument) →
        (∃ c ∈ 123 :: (content ++ 125 :: rest), written = .char c) ∨
          ∃ argument ∈ arguments.values, written = .argument argument := by
      refine Or.imp_left fun ⟨c, hc, he⟩ => ⟨c, ?_, he⟩
      exact List.mem_cons_of_mem _ (List.mem_append_right _ (List.mem_cons_of_mem _ hc))
    simp only [renderFrom] at hwritten
    split_ifs at hwritten
    · exact (List.mem_append.mp hwritten).elim hbraced fun hmem => hrest (ih (next + 1) hmem)
    · exact (List.mem_append.mp hwritten).elim hbraced fun hmem => hrest (ih next hmem)
  | unclosed hrest hbrace =>
    rw [renderFrom, renderFrom, List.append_nil] at hwritten
    obtain ⟨c, hc, rfl⟩ := List.mem_map.mp hwritten
    exact .inl ⟨c, hc, rfl⟩
  | character hopen hclose h ih =>
    rcases List.mem_cons.mp hwritten with rfl | hwritten
    · exact .inl ⟨_, List.mem_cons_self, rfl⟩
    · refine (ih next hwritten).imp_left fun ⟨c, hc, he⟩ => ⟨c, ?_, he⟩
      exact List.mem_cons_of_mem _ hc

theorem not_mem_message {doubleText : UInt64 → Bytes} {b : UInt8} (hformat : b ∉ format)
    (harguments : ∀ argument ∈ arguments.values, b ∉ writeArgument doubleText argument) :
    b ∉ output doubleText (writeFormattedMessage format arguments) := by
  obtain ⟨segments, hreads⟩ := reads_exists format
  rw [writeFormattedMessage, hreads.writeFrom_eq]
  intro hmem
  obtain ⟨written, hwritten, hb⟩ := List.mem_flatMap.mp hmem
  rcases hreads.mem_renderFrom 0 hwritten with ⟨c, hc, rfl⟩ | ⟨argument, hargument, rfl⟩
  · exact hformat (List.mem_singleton.mp hb ▸ hc)
  · exact harguments argument hargument hb

def template (parts : List Bytes) : Bytes := parts.flatMap fun text => text ++ ascii "{}"

theorem writeFrom_text {text : Bytes} (htext : ∀ c ∈ text, c ≠ 123 ∧ c ≠ 125) (arguments : CapturedArguments)
    (next : ℕ) (rest : Bytes) :
    writeFrom arguments next (text ++ rest) = text.map .char ++ writeFrom arguments next rest := by
  induction text with
  | nil => rfl
  | cons c text ih =>
    rw [List.forall_mem_cons] at htext
    rw [List.cons_append, writeFrom, if_neg htext.1.1, if_neg fun hclose => htext.1.2 hclose.1, ih htext.2]
    rfl

theorem writeFrom_placeholder (arguments : CapturedArguments) (next : ℕ) (rest : Bytes) :
    writeFrom arguments next (ascii "{}" ++ rest) =
      writeArgumentOr arguments (some next) (ascii "{}") ++ writeFrom arguments (next + 1) rest := by
  obtain ⟨segments, h⟩ := reads_exists rest
  have hbrace : (125 :: rest : Bytes).head? ≠ some 123 := by
    rw [List.head?_cons]
    decide
  have hplaceholder : Reads (ascii "{}" ++ rest) (.placeholder [] :: segments) :=
    .placeholder rfl List.not_mem_nil hbrace h
  rw [hplaceholder.writeFrom_eq, h.writeFrom_eq]
  rfl

theorem output_template (doubleText : UInt64 → Bytes) (arguments : CapturedArguments) {parts : List Bytes}
    (hparts : ∀ text ∈ parts, ∀ c ∈ text, c ≠ 123 ∧ c ≠ 125) {next : ℕ}
    (hcount : next + parts.length = arguments.count) :
    output doubleText (writeFrom arguments next (template parts)) =
      (List.zipWith (fun text argument => text ++ writeArgument doubleText argument) parts
        (arguments.values.drop next)).flatten := by
  induction parts generalizing next with
  | nil =>
    rw [template, List.flatMap_nil, writeFrom]
    rfl
  | cons text parts ih =>
    rw [List.forall_mem_cons] at hparts
    rw [List.length_cons] at hcount
    have hnext : next < arguments.values.length := by
      change next < arguments.count
      omega
    rw [template, List.flatMap_cons, List.append_assoc, writeFrom_text hparts.1, writeFrom_placeholder, ← template,
      output_append, output_append, output_char, ih hparts.2 (by omega), List.drop_eq_getElem_cons hnext,
      List.zipWith_cons_cons, List.flatten_cons, writeArgumentOr, Option.bind_some, List.getElem?_eq_getElem hnext]
    simp [output]

end Message

theorem lines_of_no_dropped {α : Type} {lines : List (Line α)} (h : writtenDropped lines = []) :
    lines = (writtenRecords lines).map .record := by
  induction lines with
  | nil => rfl
  | cons line lines ih =>
    cases line with
    | record value => exact congrArg (.record value :: ·) (ih h)
    | dropped count => cases h

theorem writtenDropped_records {α : Type} (records : List α) : writtenDropped (records.map .record) = [] := by
  rw [writtenDropped, List.filterMap_map]
  exact List.filterMap_eq_nil_iff.mpr fun _ _ => rfl

def Line.map {α β : Type} (f : α → β) : Line α → Line β
  | .record value => .record (f value)
  | .dropped count => .dropped count

theorem lines_of_written {α β : Type} {f : α → β} {lines : List (Line β)} {told : List α}
    (h : writtenRecords lines = told.map f) :
    ∃ lines', lines = lines'.map (Line.map f) ∧ writtenRecords lines' = told ∧
      writtenDropped lines' = writtenDropped lines := by
  induction lines generalizing told with
  | nil =>
    obtain rfl := List.map_eq_nil_iff.mp h.symm
    exact ⟨[], rfl, rfl, rfl⟩
  | cons line lines ih =>
    cases line with
    | record record =>
      change record :: writtenRecords lines = told.map f at h
      obtain ⟨refusal, told, rfl, rfl, hrest⟩ := List.map_eq_cons_iff.mp h.symm
      obtain ⟨lines', rfl, hwritten, hdropped⟩ := ih hrest.symm
      exact ⟨.record refusal :: lines', rfl, congrArg (refusal :: ·) hwritten, hdropped⟩
    | dropped count =>
      obtain ⟨lines', rfl, hwritten, hdropped⟩ := ih h
      exact ⟨.dropped count :: lines', rfl, hwritten, congrArg (count :: ·) hdropped⟩

variable (doubleText : UInt64 → Bytes)

def entry (now : LocalTime) : Line LogRecord → LogEntry
  | .record record =>
    { timestamp := writeTimestamp now, level := levelName record.level
      function := shortFunctionName record.functionName
      message := output doubleText (writeFormattedMessage record.format record.arguments) }
  | .dropped count =>
    { timestamp := writeTimestamp now, level := levelName .warning, function := ascii "AsyncFileLogger::run"
      message := ascii "Dropped log records count=" ++ TextCodec.decimal count }

theorem writeLine_eq (now : LocalTime) (line : Line LogRecord) :
    writeLine doubleText now line = (entry doubleText now line).text ++ ascii "\n" := by
  cases line with
  | record record => simp [writeLine, writeRecord, entry, LogEntry.text, ascii]
  | dropped count => simp [writeLine, writeDroppedRecords, entry, LogEntry.text, levelName, ascii]

end AsyncFileLogger

def LogValue.OneLine : LogValue → Prop
  | .enumeration underlying => underlying.OneLine
  | .cString value => ∀ text, value = some text → 10 ∉ text
  | .text value => 10 ∉ value
  | _ => True

structure LogCall.OneLine (call : LogCall) : Prop where
  functionName : 10 ∉ call.functionName
  format : 10 ∉ call.format
  arguments : ∀ value ∈ call.arguments, value.OneLine

namespace AsyncFileLogger

open Grammar
open scoped List

variable {doubleText : UInt64 → Bytes}

theorem newline_not_mem_decimal (n : ℕ) : 10 ∉ TextCodec.decimal n :=
  fun hmem => (TextCodec.isPlain_of_mem_decimal hmem).2.1 rfl

theorem newline_not_mem_inline {text : Bytes} (h : 10 ∉ text) :
    10 ∉ writeArgument doubleText (.string (makeInlineString text)) := by
  have htake : 10 ∉ text.take maximumInlineStringLength := fun hmem => h (List.mem_of_mem_take hmem)
  unfold writeArgument makeInlineString
  dsimp only
  split_ifs
  · rw [List.mem_append, not_or]
    exact ⟨htake, by decide⟩
  · exact htake

theorem newline_not_mem_argument (hdouble : ∀ bits, 10 ∉ doubleText bits) {value : LogValue} (h : value.OneLine) :
    10 ∉ writeArgument doubleText (captureArgument value) := by
  induction value with
  | bool value =>
    change 10 ∉ ascii (if value then "true" else "false")
    cases value <;> decide
  | enumeration underlying ih => exact ih h
  | signed value =>
    unfold captureArgument writeArgument
    dsimp only
    unfold signed
    split_ifs
    · rw [List.mem_append, not_or]
      exact ⟨by decide, newline_not_mem_decimal _⟩
    · exact newline_not_mem_decimal _
  | unsigned value => exact newline_not_mem_decimal _
  | floating bits => exact hdouble bits
  | cString value =>
    cases value with
    | none => exact newline_not_mem_inline (by decide)
    | some text => exact newline_not_mem_inline (h text rfl)
  | text value => exact newline_not_mem_inline h

theorem newline_not_mem_text {entry : LogEntry} (htimestamp : AllPlain entry.timestamp) (hlevel : AllPlain entry.level)
    (hfunction : 10 ∉ entry.function) (hmessage : 10 ∉ entry.message) : 10 ∉ entry.text := by
  simp only [LogEntry.text, List.mem_append, List.mem_cons, not_or]
  exact ⟨fun hmem => (htimestamp 10 hmem).2.1 rfl, by decide, fun hmem => (hlevel 10 hmem).2.1 rfl, by decide,
    hfunction, by decide, hmessage⟩

theorem legible_record (hdouble : ∀ bits, 10 ∉ doubleText bits) (now : LocalTime) {minimumLevel : LogLevel}
    {call : LogCall} (hcall : call.OneLine) {record : LogRecord} (h : enqueue minimumLevel call = some record) :
    (entry doubleText now (.record record)).Legible := by
  unfold enqueue at h
  split_ifs at h
  obtain rfl := Option.some.inj h
  have hmessage : 10 ∉ output doubleText (writeFormattedMessage call.format call.captureArguments) := by
    apply not_mem_message hcall.format
    intro argument hargument
    obtain ⟨value, hvalue, rfl⟩ := List.mem_map.mp hargument
    exact newline_not_mem_argument hdouble (hcall.arguments value hvalue)
  refine ⟨fun hmem => (writeTimestamp_plain now 32 hmem).2.2.2 rfl,
    fun hmem => (levelName_plain call.level 32 hmem).2.2.2 rfl, space_not_mem_shortFunctionName _, ?_⟩
  exact newline_not_mem_text (writeTimestamp_plain now) (levelName_plain call.level)
    (fun hmem => hcall.functionName ((shortFunctionName_sublist _).subset hmem)) hmessage

theorem legible_dropped (now : LocalTime) (count : ℕ) : (entry doubleText now (.dropped count)).Legible := by
  have hmessage : 10 ∉ ascii "Dropped log records count=" ++ TextCodec.decimal count := by
    rw [List.mem_append, not_or]
    exact ⟨by decide, newline_not_mem_decimal count⟩
  have hfunction : AllPlain (ascii "AsyncFileLogger::run") := by decide
  refine ⟨fun hmem => (writeTimestamp_plain now 32 hmem).2.2.2 rfl,
    fun hmem => (levelName_plain .warning 32 hmem).2.2.2 rfl, fun hmem => (hfunction 32 hmem).2.2.2 rfl, ?_⟩
  exact newline_not_mem_text (writeTimestamp_plain now) (levelName_plain .warning)
    (fun hmem => (hfunction 10 hmem).2.1 rfl) hmessage

theorem map_mapIdx {α β γ : Type} (f : ℕ → α → β) (g : β → γ) (l : List α) :
    (l.mapIdx f).map g = l.mapIdx fun n a => g (f n a) := by
  rw [List.mapIdx_eq_zipIdx_map, List.mapIdx_eq_zipIdx_map, List.map_map]
  rfl

theorem readAll_fileText (clock : ℕ → LocalTime) {lines : List (Line LogRecord)}
    (h : ∀ line ∈ lines, ∀ now, (entry doubleText now line).Legible) :
    LogEntry.readAll (fileText doubleText clock lines) =
      lines.mapIdx fun n line => entry doubleText (clock n) line := by
  have hentries : ∀ entry' ∈ lines.mapIdx fun n line => entry doubleText (clock n) line, entry'.Legible := by
    intro entry' hmem
    obtain ⟨n, hlt, rfl⟩ := List.exists_of_mem_mapIdx hmem
    exact h _ (List.getElem_mem hlt) _
  have htext : fileText doubleText clock lines =
      (lines.mapIdx fun n line => entry doubleText (clock n) line).flatMap fun entry => entry.text ++ ascii "\n" := by
    rw [fileText, List.flatMap_def, map_mapIdx]
    simp only [writeLine_eq]
  rw [htext, LogEntry.readAll_texts hentries]

theorem mapIdx_map {α β γ : Type} (f : α → β) (g : ℕ → β → γ) (l : List α) :
    (l.map f).mapIdx g = l.mapIdx fun n a => g n (f a) := by
  rw [List.mapIdx_eq_zipIdx_map, List.mapIdx_eq_zipIdx_map, List.zipIdx_map, List.map_map]
  rfl

theorem Threads.Tracked.record_mem {α : Type} {records : List α} {threads : Threads α} (h : Tracked records threads)
    {record : α} (hmem : .record record ∈ threads.lines) : record ∈ records := by
  have hwritten : record ∈ writtenRecords threads.lines := List.mem_filterMap.mpr ⟨_, hmem, rfl⟩
  exact h.order.subset (List.mem_append_left _ (h.channel.fifo.subset hwritten))

theorem Threads.Tracked.delivered {α : Type} {records : List α} {threads : Threads α} (h : Tracked records threads)
    (hreturned : threads.worker = .returned) : Delivered threads records := by
  have hleaving := h.leaving
  rw [hreturned] at hleaving
  obtain ⟨hstop, hwritten, hzero⟩ := hleaving
  obtain ⟨hcalls, hproducer⟩ := h.stopped hstop
  have hdropped := h.dropped
  have hcount := h.count
  rw [hcalls, Threads.inProgress, hproducer] at hcount
  exact ⟨hwritten, by omega, (List.sublist_append_left _ _).trans h.order, hcount⟩

theorem Threads.Tracked.readAll_lines (hdouble : ∀ bits, 10 ∉ doubleText bits) {minimumLevel : LogLevel}
    {calls : List LogCall} (hcalls : ∀ call ∈ calls, call.OneLine) {threads : Threads LogRecord}
    (h : Tracked (calls.filterMap (enqueue minimumLevel)) threads) (clock : ℕ → LocalTime) :
    LogEntry.readAll (fileText doubleText clock threads.lines) =
      threads.lines.mapIdx fun n line => entry doubleText (clock n) line := by
  apply readAll_fileText
  intro line hline now
  cases line with
  | record record =>
    obtain ⟨call, hcall, hrecord⟩ := List.mem_filterMap.mp (h.record_mem hline)
    exact legible_record hdouble now (hcalls call hcall) hrecord
  | dropped count => exact legible_dropped now count

theorem lines_of_values {α β : Type} (f : α → β) {values : List α} (hlt : values.length < word) (storage : ℕ → β)
    (schedule : List Thread)
    (hreturned : ((Threads.start storage (values.map f)).interleave schedule).worker = .returned) :
    ∃ lines, ((Threads.start storage (values.map f)).interleave schedule).lines = lines.map (Line.map f) ∧
      writtenRecords lines <+ values ∧
      (writtenRecords lines).length + (writtenDropped lines).sum = values.length ∧
      (values.length ≤ queueCapacity → lines = values.map .record) := by
  have htracked := (Threads.Tracked.start storage (values.map f)).interleave (by rwa [List.length_map]) schedule
  have hdelivered := htracked.delivered hreturned
  have hanswered := hdelivered.answered
  have hsublist := hdelivered.in_order
  rw [← hdelivered.written, List.sublist_map_iff] at hsublist
  obtain ⟨told, htold, hwritten⟩ := hsublist
  rw [← hdelivered.written, ← hdelivered.dropped, hwritten, List.length_map, List.length_map] at hanswered
  obtain ⟨lines, hlines, rfl, hdropped⟩ := lines_of_written hwritten
  rw [← hdropped] at hanswered
  refine ⟨lines, hlines, htold, hanswered, fun hfits => ?_⟩
  have hspared := (Threads.Spared.start storage (values.map f)).interleave (by rwa [List.length_map]) schedule
  have hnone : writtenDropped lines = [] := by
    rw [hdropped, hspared.lines_of_returned hreturned, writtenDropped_records]
  rw [hnone, List.sum_nil, Nat.add_zero] at hanswered
  rw [lines_of_no_dropped hnone, htold.eq_of_length hanswered]

theorem log_reads_back (hdouble : ∀ bits, 10 ∉ doubleText bits) (minimumLevel : LogLevel) {calls : List LogCall}
    (hcalls : ∀ call ∈ calls, call.OneLine) (hlt : calls.length < word) (storage : ℕ → LogRecord)
    (clock : ℕ → LocalTime) (schedule : List Thread) :
    let records := calls.filterMap (enqueue minimumLevel)
    let final := (Threads.start storage records).interleave schedule
    LogEntry.readAll (fileText doubleText clock final.lines) =
        final.lines.mapIdx (fun n line => entry doubleText (clock n) line) ∧
      (records.length ≤ queueCapacity → final.worker = .returned →
        LogEntry.readAll (fileText doubleText clock final.lines) =
          records.mapIdx fun n record => entry doubleText (clock n) (.record record)) := by
  intro records final
  have htracked : Threads.Tracked records final := (Threads.Tracked.start storage records).interleave
    ((List.length_filterMap_le _ _).trans_lt hlt) schedule
  have hread := htracked.readAll_lines hdouble hcalls clock
  refine ⟨hread, fun hfits hreturned => ?_⟩
  have hspared : Threads.Spared records final := (Threads.Spared.start storage records).interleave hfits schedule
  rw [hread, hspared.lines_of_returned hreturned, mapIdx_map]

def sampleCalls : List LogCall :=
  [{ level := .debug, functionName := ascii "void sixchange::OrderGateway::handle_new_order(const Request &)"
     format := ascii "New order rejected client_order_id={} reason={}"
     arguments := [.unsigned 7, .text (ascii "UNKNOWN_SYMBOL")], arguments_le := by decide },
   { level := .critical, functionName := ascii "int main()", format := ascii "stopped", arguments := []
     arguments_le := by decide }]

theorem log_reads_back_sample :
    let records := sampleCalls.filterMap (enqueue .warning)
    let final := (Threads.start (fun _ => ⟨.trace, [], [], ⟨[], by decide⟩⟩) records).interleave sampleSchedule
    LogEntry.readAll (fileText (fun _ => []) (fun n => ⟨2026, 3, 4, 5, 6, 7, n⟩) final.lines) =
        final.lines.mapIdx (fun n line => entry (fun _ => []) ⟨2026, 3, 4, 5, 6, 7, n⟩ line) ∧
      LogEntry.readAll (fileText (fun _ => []) (fun n => ⟨2026, 3, 4, 5, 6, 7, n⟩) final.lines) =
        records.mapIdx fun n record => entry (fun _ => []) ⟨2026, 3, 4, 5, 6, 7, n⟩ (.record record) := by
  intro records final
  have hcalls : ∀ call ∈ sampleCalls, call.OneLine := by
    simp only [sampleCalls, List.forall_mem_cons]
    refine ⟨⟨by decide, by decide, ?_⟩, ⟨by decide, by decide, List.forall_mem_nil _⟩, List.forall_mem_nil _⟩
    simp only [List.forall_mem_cons, LogValue.OneLine]
    exact ⟨trivial, by decide, List.forall_mem_nil _⟩
  have hreturned : final.worker = .returned := by decide +kernel
  have hread := log_reads_back (fun _ => List.not_mem_nil) .warning hcalls (by decide)
    (fun _ => ⟨.trace, [], [], ⟨[], by decide⟩⟩) (fun n => ⟨2026, 3, 4, 5, 6, 7, n⟩) sampleSchedule
  exact ⟨hread.1, hread.2 (by decide) hreturned⟩

end AsyncFileLogger

end Sixchange
