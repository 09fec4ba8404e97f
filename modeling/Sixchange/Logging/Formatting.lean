import Mathlib.Data.List.Induction
import Mathlib.Data.Nat.ModEq
import Sixchange.Codec.Decoding
import Sixchange.Model.LogFormat

namespace Sixchange

open Grammar

/-- A format in parts: a character that stands for itself, a placeholder with what its braces enclose, and an
opening brace that is never closed with all that follows it. -/
inductive Segment
  | character (character : UInt8)
  | placeholder (content : Bytes)
  | unclosed (rest : Bytes)
  deriving DecidableEq

namespace AsyncFileLogger

inductive Reads : Bytes → List Segment → Prop
  | nil : Reads [] []
  | openBrace {rest segments} (h : Reads rest segments) : Reads (123 :: 123 :: rest) (.character 123 :: segments)
  | closeBrace {rest segments} (h : Reads rest segments) : Reads (125 :: 125 :: rest) (.character 125 :: segments)
  | placeholder {format content rest segments} (hformat : format = content ++ 125 :: rest)
      (hcontent : 125 ∉ content) (hbrace : format.head? ≠ some 123) (h : Reads rest segments) :
      Reads (123 :: format) (.placeholder content :: segments)
  | unclosed {rest} (hrest : 125 ∉ rest) (hbrace : rest.head? ≠ some 123) : Reads (123 :: rest) [.unclosed rest]
  | character {character rest segments} (hopen : character ≠ 123)
      (hclose : character = 125 → rest.head? ≠ some 125) (h : Reads rest segments) :
      Reads (character :: rest) (.character character :: segments)

def numeral (content : Bytes) : Option ℕ :=
  if content ≠ [] ∧ AllDigits content then some (value content) else none

def renderFrom (index : Bytes → Option ℕ) (arguments : CapturedArguments) : ℕ → List Segment → List Written
  | _, [] => []
  | next, .character character :: segments => .char character :: renderFrom index arguments next segments
  | next, .placeholder content :: segments =>
    let braced := 123 :: content ++ [125]
    if content = [] then writeArgumentOr arguments (some next) braced ++ renderFrom index arguments (next + 1) segments
    else writeArgumentOr arguments (index content) braced ++ renderFrom index arguments next segments
  | next, .unclosed rest :: segments => (123 :: rest).map .char ++ renderFrom index arguments next segments

def rendering (arguments : CapturedArguments) (segments : List Segment) : List Written :=
  renderFrom numeral arguments 0 segments

/-- A numeral that is out of bounds is so modulo 2^64. -/
def StaysOut (count : ℕ) (content : Bytes) : Prop :=
  ∀ n, numeral content = some n → count ≤ n → count ≤ n % 2 ^ 64

def Resolves (count : ℕ) (segments : List Segment) : Prop :=
  ∀ content, .placeholder content ∈ segments → StaysOut count content

def doubled (text : Bytes) : Bytes :=
  text.flatMap fun character => if character = 123 ∨ character = 125 then [character, character] else [character]

theorem parseArgumentIndex_eq (content : Bytes) : parseArgumentIndex content = (numeral content).map (· % word) := by
  rw [parseArgumentIndex, numeral]
  by_cases hempty : content = []
  · rw [if_pos (List.isEmpty_iff.mpr hempty), if_neg (fun h => h.1 hempty)]
    rfl
  rw [if_neg (mt List.isEmpty_iff.mp hempty)]
  simp only [ne_eq, hempty, not_false_eq_true, true_and]
  clear hempty
  induction content using List.reverseRecOn with
  | nil => rfl
  | append_singleton content character ih =>
    have hvalue : value (content ++ [character]) = value content * 10 + (character.toNat - 48) := by
      rw [← decimalValue_eq, ← decimalValue_eq, TextCodec.decimalValue, List.foldl_append]
      exact congrArg (· + _) (Nat.mul_comm _ _)
    rw [List.foldlM_append, ih]
    have hdigits : AllDigits (content ++ [character]) ↔ AllDigits content ∧ IsDigit character := by
      simp only [AllDigits, List.forall_mem_append, List.forall_mem_singleton]
    by_cases hcontent : AllDigits content
    · by_cases hcharacter : IsDigit character
      · have hlast : TextCodec.isDigit character = true := decide_eq_true hcharacter
        rw [if_pos hcontent, if_pos (hdigits.mpr ⟨hcontent, hcharacter⟩), hvalue]
        simp only [Option.map_some, Option.bind_eq_bind, Option.bind_some, List.foldlM_cons, List.foldlM_nil, hlast,
          if_true, Option.pure_def, wrapAdd_mod]
        exact congrArg some (((Nat.mod_modEq _ word).mul_right 10).add_right _)
      · have hlast : TextCodec.isDigit character = false := decide_eq_false hcharacter
        rw [if_pos hcontent, if_neg (fun h => hcharacter (hdigits.mp h).2)]
        simp [hlast]
    · rw [if_neg hcontent, if_neg (fun h => hcontent (hdigits.mp h).1)]
      rfl

section Reads

variable {format rest content : Bytes} {segments segments' : List Segment} {character : UInt8}

theorem closing_eq (rest : Bytes) (hcontent : 125 ∉ content) : (content ++ 125 :: rest).takeWhile (· ≠ 125) = content ∧
    (content ++ 125 :: rest).dropWhile (· ≠ 125) = 125 :: rest := by
  have hne : ∀ c ∈ content, decide (c ≠ 125) = true := fun c hc => decide_eq_true (ne_of_mem_of_not_mem hc hcontent)
  rw [List.takeWhile_append_of_pos hne, List.dropWhile_append_of_pos hne]
  simp

theorem closing_inj {content' rest' : Bytes} (hcontent : 125 ∉ content) (hcontent' : 125 ∉ content')
    (h : content ++ 125 :: rest = content' ++ 125 :: rest') : content = content' ∧ rest = rest' := by
  obtain ⟨htake, hdrop⟩ := closing_eq rest hcontent
  obtain ⟨htake', hdrop'⟩ := closing_eq rest' hcontent'
  rw [h] at htake hdrop
  exact ⟨htake.symm.trans htake', (List.cons.inj (hdrop.symm.trans hdrop')).2⟩

theorem Reads.unique (h : Reads format segments) (h' : Reads format segments') : segments' = segments := by
  induction h generalizing segments' with
  | nil => cases h'; rfl
  | openBrace h ih =>
    cases h' with
    | openBrace h' => rw [ih h']
    | placeholder _ _ hbrace => exact absurd rfl hbrace
    | unclosed _ hbrace => exact absurd rfl hbrace
    | character hopen => exact absurd rfl hopen
  | closeBrace h ih =>
    cases h' with
    | closeBrace h' => rw [ih h']
    | character _ hclose => exact absurd rfl (hclose rfl)
  | placeholder hformat hcontent hbrace h ih =>
    cases h' with
    | openBrace => exact absurd rfl hbrace
    | placeholder hformat' hcontent' _ h' =>
      obtain ⟨rfl, rfl⟩ := closing_inj hcontent hcontent' (hformat.symm.trans hformat')
      rw [ih h']
    | unclosed hrest => exact absurd (hformat ▸ List.mem_append_right _ (List.mem_cons_self ..)) hrest
    | character hopen => exact absurd rfl hopen
  | unclosed hrest hbrace =>
    cases h' with
    | openBrace => exact absurd rfl hbrace
    | placeholder hformat => exact absurd (hformat ▸ List.mem_append_right _ (List.mem_cons_self ..)) hrest
    | unclosed => rfl
    | character hopen => exact absurd rfl hopen
  | character hopen hclose h ih =>
    cases h' with
    | openBrace => exact absurd rfl hopen
    | closeBrace => exact absurd rfl (hclose rfl)
    | placeholder => exact absurd rfl hopen
    | unclosed => exact absurd rfl hopen
    | character _ _ h' => rw [ih h']

theorem reads_exists (format : Bytes) : ∃ segments, Reads format segments := by
  cases format with
  | nil => exact ⟨[], .nil⟩
  | cons character rest =>
    by_cases hopen : character = 123
    · subst hopen
      by_cases hbrace : rest.head? = some 123
      · obtain ⟨after, rfl⟩ := List.head?_eq_some_iff.mp hbrace
        obtain ⟨segments, h⟩ := reads_exists after
        exact ⟨_, .openBrace h⟩
      · by_cases hclosed : 125 ∈ rest
        · obtain ⟨content, after, rfl, hcontent⟩ := List.eq_append_cons_of_mem hclosed
          obtain ⟨segments, h⟩ := reads_exists after
          exact ⟨_, .placeholder rfl hcontent hbrace h⟩
        · exact ⟨_, .unclosed hclosed hbrace⟩
    · by_cases hclose : character = 125 ∧ rest.head? = some 125
      · obtain ⟨rfl, hhead⟩ := hclose
        obtain ⟨after, rfl⟩ := List.head?_eq_some_iff.mp hhead
        obtain ⟨segments, h⟩ := reads_exists after
        exact ⟨_, .closeBrace h⟩
      · obtain ⟨segments, h⟩ := reads_exists rest
        exact ⟨_, .character hopen (fun heq hhead => hclose ⟨heq, hhead⟩) h⟩
  termination_by format.length
  decreasing_by
    all_goals
      subst_vars
      simp only [List.length_cons, List.length_append]
      omega

theorem Reads.writeFrom_eq (h : Reads format segments) (arguments : CapturedArguments) (next : ℕ) :
    writeFrom arguments next format = renderFrom parseArgumentIndex arguments next segments := by
  induction h generalizing next with
  | nil => rw [writeFrom, renderFrom]
  | openBrace h ih =>
    rw [writeFrom, renderFrom, ← ih next]
    simp
  | closeBrace h ih =>
    rw [writeFrom, renderFrom, ← ih next]
    simp
  | placeholder hformat hcontent hbrace h ih =>
    subst hformat
    obtain ⟨htake, hdrop⟩ := closing_eq _ hcontent
    rw [writeFrom, renderFrom, if_pos rfl, if_neg hbrace]
    split
    · next hnone => cases hnone.symm.trans hdrop
    · next hclosing =>
      obtain ⟨-, rfl⟩ := List.cons.inj (hclosing.symm.trans hdrop)
      simp only [htake, List.isEmpty_iff, ih]
  | unclosed hrest hbrace =>
    rw [writeFrom, renderFrom, if_pos rfl, if_neg hbrace]
    split
    · rw [renderFrom, List.append_nil]
    · next hclosing =>
      have hnone := List.dropWhile_eq_nil_iff.mpr fun c hc => decide_eq_true (ne_of_mem_of_not_mem hc hrest)
      cases hclosing.symm.trans hnone
  | character hopen hclose h ih =>
    rw [writeFrom, renderFrom, if_neg hopen, if_neg (fun hc => hclose hc.1 hc.2), ih next]

end Reads

section Agreement

variable {index index' : Bytes → Option ℕ} {arguments : CapturedArguments} {segments : List Segment}
  {content : Bytes} {n : ℕ}

theorem writeArgumentOr_some {index : ℕ} (h : index < arguments.count) (braced : Bytes) :
    ∃ argument ∈ arguments.values, writeArgumentOr arguments (some index) braced = [.argument argument] := by
  refine ⟨arguments.values.get ⟨index, h⟩, List.get_mem .., ?_⟩
  rw [writeArgumentOr, Option.bind_some, List.getElem?_eq_getElem h]
  rfl

theorem writeArgumentOr_none {index : Option ℕ} (h : ∀ n, index = some n → arguments.count ≤ n) (braced : Bytes) :
    writeArgumentOr arguments index braced = braced.map .char := by
  cases index with
  | none => rfl
  | some n => rw [writeArgumentOr, Option.bind_some, List.getElem?_eq_none (h n rfl)]

theorem writeArgumentOr_eq (h : StaysOut arguments.count content) (braced : Bytes) :
    writeArgumentOr arguments (parseArgumentIndex content) braced =
      writeArgumentOr arguments (numeral content) braced := by
  rw [parseArgumentIndex_eq]
  cases hn : numeral content with
  | none => rfl
  | some n =>
    rw [Option.map_some]
    by_cases hin : n < arguments.count
    · have hle : arguments.count ≤ 8 := arguments.count_le
      rw [Nat.mod_eq_of_lt (hin.trans_le (hle.trans (by decide)))]
    · have hout : arguments.count ≤ n := Nat.le_of_not_lt hin
      rw [writeArgumentOr_none (fun m hm => Option.some.inj hm ▸ h n hn hout),
        writeArgumentOr_none (fun m hm => Option.some.inj hm ▸ hout)]

theorem writeArgumentOr_ne (h : ¬ StaysOut arguments.count content) (braced : Bytes) :
    content ≠ [] ∧
      (∃ argument ∈ arguments.values,
        writeArgumentOr arguments (parseArgumentIndex content) braced = [.argument argument]) ∧
      writeArgumentOr arguments (numeral content) braced = braced.map .char := by
  simp only [StaysOut, not_forall] at h
  obtain ⟨n, hn, hout, hwrapped⟩ := h
  refine ⟨?_, ?_, ?_⟩
  · rintro rfl
    cases hn
  · rw [parseArgumentIndex_eq, hn, Option.map_some]
    exact writeArgumentOr_some (Nat.lt_of_not_le hwrapped) braced
  · rw [hn]
    exact writeArgumentOr_none (fun m hm => Option.some.inj hm ▸ hout) braced

theorem staysOut_nil (count : ℕ) : StaysOut count [] := fun _ hn => by cases hn

theorem resolves_cons {count : ℕ} {segment : Segment} :
    Resolves count (segment :: segments) ↔
      (∀ content, segment = .placeholder content → StaysOut count content) ∧ Resolves count segments := by
  constructor
  · exact fun h => ⟨fun content heq => h content (heq ▸ List.mem_cons_self ..),
      fun content hmem => h content (List.mem_cons_of_mem _ hmem)⟩
  · rintro ⟨hhead, htail⟩ content hmem
    obtain heq | hmem := List.mem_cons.mp hmem
    · exact hhead content heq.symm
    · exact htail content hmem

theorem renderFrom_eq_iff (arguments : CapturedArguments) (segments : List Segment) (next : ℕ) :
    renderFrom parseArgumentIndex arguments next segments = renderFrom numeral arguments next segments ↔
      Resolves arguments.count segments := by
  induction segments generalizing next with
  | nil => exact iff_of_true rfl (fun _ hmem => absurd hmem List.not_mem_nil)
  | cons segment segments ih =>
    rw [resolves_cons]
    cases segment with
    | character character =>
      simp only [renderFrom, List.cons.injEq, true_and, ih, reduceCtorEq, false_implies, implies_true]
    | placeholder content =>
      simp only [Segment.placeholder.injEq, forall_eq']
      by_cases hempty : content = []
      · subst hempty
        simp only [renderFrom, if_true, List.append_cancel_left_eq, ih, staysOut_nil, true_and]
      · simp only [renderFrom, if_neg hempty]
        by_cases hout : StaysOut arguments.count content
        · simp only [writeArgumentOr_eq hout, List.append_cancel_left_eq, ih, hout, true_and]
        · obtain ⟨-, ⟨argument, -, hwritten⟩, hcopied⟩ := writeArgumentOr_ne hout (123 :: content ++ [125])
          refine iff_of_false (fun heq => ?_) (fun h => hout h.1)
          rw [hwritten, hcopied] at heq
          cases (List.cons.inj heq).1
    | unclosed rest =>
      simp only [renderFrom, List.append_cancel_left_eq, ih, reduceCtorEq, false_implies, implies_true, true_and]

end Agreement

section Text

variable {arguments : CapturedArguments} {doubleText : UInt64 → Bytes}

theorem output_append (written written' : List Written) :
    output doubleText (written ++ written') = output doubleText written ++ output doubleText written' :=
  List.flatMap_append

theorem output_char (text : Bytes) : output doubleText (text.map .char) = text := by
  induction text with
  | nil => rfl
  | cons character text ih => exact congrArg (character :: ·) ih

/-- With arguments that have no text, an argument in the place of a placeholder makes the message shorter. -/
theorem output_length (hblank : ∀ argument ∈ arguments.values, writeArgument doubleText argument = [])
    (segments : List Segment) (next : ℕ) :
    (output doubleText (renderFrom parseArgumentIndex arguments next segments)).length ≤
        (output doubleText (renderFrom numeral arguments next segments)).length ∧
      ((output doubleText (renderFrom numeral arguments next segments)).length ≤
          (output doubleText (renderFrom parseArgumentIndex arguments next segments)).length →
        Resolves arguments.count segments) := by
  induction segments generalizing next with
  | nil => exact ⟨le_rfl, fun _ _ hmem => absurd hmem List.not_mem_nil⟩
  | cons segment segments ih =>
    rw [resolves_cons]
    cases segment with
    | character character =>
      obtain ⟨hle, hresolves⟩ := ih next
      refine ⟨Nat.succ_le_succ hle, fun hge => ⟨fun _ => nofun, hresolves ?_⟩⟩
      exact Nat.le_of_succ_le_succ hge
    | placeholder content =>
      simp only [Segment.placeholder.injEq, forall_eq', renderFrom]
      split_ifs with hempty
      · subst hempty
        obtain ⟨hle, hresolves⟩ := ih (next + 1)
        simp only [output_append, List.length_append, Nat.add_le_add_iff_left]
        exact ⟨hle, fun hge => ⟨staysOut_nil _, hresolves hge⟩⟩
      · obtain ⟨hle, hresolves⟩ := ih next
        by_cases hout : StaysOut arguments.count content
        · simp only [writeArgumentOr_eq hout, output_append, List.length_append, Nat.add_le_add_iff_left]
          exact ⟨hle, fun hge => ⟨hout, hresolves hge⟩⟩
        · obtain ⟨-, ⟨argument, hmem, hwritten⟩, hcopied⟩ := writeArgumentOr_ne hout (123 :: content ++ [125])
          have hnone : output doubleText [.argument argument] = [] :=
            (List.append_nil _).trans (hblank argument hmem)
          rw [hwritten, hcopied, output_append, output_append, hnone, output_char]
          simp only [List.nil_append, List.length_append, List.length_cons]
          exact ⟨by omega, fun hge => absurd hge (by omega)⟩
    | unclosed rest =>
      obtain ⟨hle, hresolves⟩ := ih next
      simp only [renderFrom, output_append, List.length_append, Nat.add_le_add_iff_left]
      exact ⟨hle, fun hge => ⟨fun _ => nofun, hresolves hge⟩⟩

def blanks (count : ℕ) (h : count ≤ maximumLogArguments) : CapturedArguments where
  values := List.replicate count (.string (makeInlineString []))
  count_le := List.length_replicate.trans_le h

theorem output_eq_iff {count : ℕ} (hcount : count ≤ maximumLogArguments) (segments : List Segment) :
    (∀ arguments : CapturedArguments, arguments.count = count →
        output doubleText (renderFrom parseArgumentIndex arguments 0 segments) =
          output doubleText (rendering arguments segments)) ↔
      Resolves count segments := by
  constructor
  · intro h
    have hcount' : (blanks count hcount).count = count := List.length_replicate
    have hblank : ∀ argument ∈ (blanks count hcount).values, writeArgument doubleText argument = [] := by
      intro argument hmem
      obtain rfl := List.eq_of_mem_replicate hmem
      rfl
    have hlength := congrArg List.length (h _ hcount')
    have hresolves := (output_length hblank segments 0).2 hlength.ge
    rwa [hcount'] at hresolves
  · rintro h arguments rfl
    rw [(renderFrom_eq_iff arguments segments 0).mpr h]
    rfl

theorem reads_doubled (text : Bytes) : Reads (doubled text) (text.map .character) := by
  induction text with
  | nil => exact .nil
  | cons character text ih =>
    rw [doubled, List.flatMap_cons, List.map_cons]
    split_ifs with hbrace
    · obtain rfl | rfl := hbrace
      · exact .openBrace ih
      · exact .closeBrace ih
    · exact .character (fun h => hbrace (.inl h)) (fun h => absurd (.inr h) hbrace) ih

theorem renderFrom_characters (index : Bytes → Option ℕ) (arguments : CapturedArguments) (next : ℕ) (text : Bytes) :
    renderFrom index arguments next (text.map .character) = text.map .char := by
  induction text with
  | nil => rfl
  | cons character text ih => exact congrArg (.char character :: ·) ih

theorem writeFrom_doubled (arguments : CapturedArguments) (next : ℕ) (text : Bytes) :
    writeFrom arguments next (doubled text) = text.map .char :=
  ((reads_doubled text).writeFrom_eq arguments next).trans (renderFrom_characters _ arguments next text)

end Text

theorem formatting_reference (format : Bytes) :
    ∃ segments, Reads format segments ∧ (∀ segments', Reads format segments' → segments' = segments) ∧
      (∀ arguments, writeFormattedMessage format arguments = rendering arguments segments ↔
        Resolves arguments.count segments) ∧
      (∀ doubleText count, count ≤ maximumLogArguments →
        ((∀ arguments : CapturedArguments, arguments.count = count →
            output doubleText (writeFormattedMessage format arguments) =
              output doubleText (rendering arguments segments)) ↔
          Resolves count segments)) ∧
      ∀ doubleText arguments, output doubleText (writeFormattedMessage (doubled format) arguments) = format := by
  obtain ⟨segments, hreads⟩ := reads_exists format
  have hwrites (arguments : CapturedArguments) : writeFormattedMessage format arguments =
      renderFrom parseArgumentIndex arguments 0 segments := hreads.writeFrom_eq arguments 0
  refine ⟨segments, hreads, fun _ => hreads.unique, ?_, ?_, ?_⟩
  · intro arguments
    rw [hwrites]
    exact renderFrom_eq_iff arguments segments 0
  · intro doubleText count hcount
    simp only [hwrites]
    exact output_eq_iff hcount segments
  · intro doubleText arguments
    rw [writeFormattedMessage, writeFrom_doubled, output_char]

theorem formatting_wraps :
    let format := ascii "\x7b18446744073709551616\x7d"
    let segments : List Segment := [.placeholder (ascii "18446744073709551616")]
    let arguments : CapturedArguments := ⟨[.uint64 7], by decide⟩
    Reads format segments ∧ output (fun _ => []) (rendering arguments segments) = format ∧
      output (fun _ => []) (writeFormattedMessage format arguments) = ascii "7" ∧
      output (fun _ => []) (writeFormattedMessage format arguments) ≠
        output (fun _ => []) (rendering arguments segments) := by
  intro format segments arguments
  have hformat : ascii "18446744073709551616\x7d" = ascii "18446744073709551616" ++ 125 :: [] := rfl
  have hreads : Reads format segments := .placeholder hformat (by decide) (by decide) .nil
  have hreference : output (fun _ => []) (rendering arguments segments) = format := by decide
  have hwritten : output (fun _ => []) (writeFormattedMessage format arguments) = ascii "7" := by
    rw [writeFormattedMessage, hreads.writeFrom_eq]
    decide
  refine ⟨hreads, hreference, hwritten, ?_⟩
  rw [hwritten, hreference]
  decide

end AsyncFileLogger

end Sixchange
