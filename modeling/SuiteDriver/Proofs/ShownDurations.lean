import Mathlib.Data.List.Basic
import SuiteDriver.Proofs.Decoration
import SuiteDriver.Proofs.FilledPlaces
import SuiteDriver.Proofs.Rounding

/-!
# Durations are shown faithfully

A duration is rounded four times on its way into a line: its seconds, its fraction, the sum of the
two, and the two places of the text. Up to 2 ^ 53 seconds the first rounding changes nothing, and
from there on the fraction is too little to be seen, so at no second the sum falls behind; all else
keeps the order by itself. What a line shows is the number that comes out, with nothing in the line
that would change with the duration besides.

* `WritesPlaces`: the number that a text writes with two places, and it writes one at most;
* `Duration.Rounded`: the four steps, each to the nearest and a tie to the even one;
* `Duration.Rounded.mono`, `Duration.Rounded.abs_sub_length_le`: the order and the error;
* `Console.Line.exists_around_duration`: the text of a duration in the line of a step, also in
  colours;
* `Duration.shown_faithfully`: all of it, for every duration that is measured.
-/

namespace SuiteDriver

open Number

/-! ## 1. Numbers in texts -/

/-- **A text writes a number with two places**: digits, a point and two more digits, all of which
    together tell the hundredths. -/
def WritesPlaces (text : String) (p : ℚ) : Prop :=
  ∃ whole places : List Char, text.toList = whole ++ '.' :: places ∧ whole ≠ [] ∧
    places.length = 2 ∧ (∀ c ∈ whole ++ places, c.isDigit = true) ∧
    p = Nat.ofDigitChars 10 (whole ++ places) 0 / 100

theorem point_notMem {s : List Char} (h : ∀ c ∈ s, c.isDigit = true) : '.' ∉ s := by
  intro hmem
  have hdigit := h '.' hmem
  revert hdigit
  decide

/-- **A text writes one number.** -/
theorem WritesPlaces.unique {text : String} {p p' : ℚ} (h : WritesPlaces text p)
    (h' : WritesPlaces text p') : p = p' := by
  obtain ⟨whole, places, htext, -, -, hdigits, rfl⟩ := h
  obtain ⟨whole', places', htext', -, -, -, rfl⟩ := h'
  obtain ⟨rfl, -, rfl⟩ := (List.append_cons_inj_of_notMem
    (point_notMem fun c hc => hdigits c (List.mem_append_left _ hc))
    (point_notMem fun c hc => hdigits c (List.mem_append_right _ hc))).mp
    (htext.symm.trans htext')
  rfl

namespace Duration

theorem toList_placesText (n : Nat) :
    (placesText n).toList =
      Nat.toDigits 10 (n / 100) ++
        '.' :: (Nat.toDigits 10 (n / 10 % 10) ++ Nat.toDigits 10 (n % 10)) := by
  unfold placesText
  simp only [String.toList_append, Nat.toString_eq_ofList_toDigits, String.toList_ofList]
  exact (List.append_assoc _ _ _).trans (List.append_assoc _ ['.'] _)

/-- A number below ten is one digit. -/
theorem toDigits_mod_ten (n : Nat) : Nat.toDigits 10 (n % 10) = [(n % 10).digitChar] :=
  Nat.toDigits_of_lt_base (Nat.mod_lt n (by decide))

/-- **Hundredths are written with two places.** -/
theorem writesPlaces_placesText (n : Nat) : WritesPlaces (placesText n) (n / 100) := by
  refine ⟨_, _, toList_placesText n, Nat.toDigits_ne_nil, ?_, fun c hc => ?_, ?_⟩
  · rw [toDigits_mod_ten, toDigits_mod_ten]
    rfl
  · rw [List.mem_append, List.mem_append] at hc
    rcases hc with hc | hc | hc <;>
      exact Nat.isDigit_of_mem_toDigits (by decide) (by decide) hc
  · rw [toDigits_mod_ten, toDigits_mod_ten, Nat.ofDigitChars_append,
      Nat.ofDigitChars_ten_toDigits, List.singleton_append,
      Nat.ofDigitChars_cons_digitChar_of_lt_ten (Nat.mod_lt _ (by decide)),
      Nat.ofDigitChars_cons_digitChar_of_lt_ten (Nat.mod_lt _ (by decide)),
      Nat.ofDigitChars_nil]
    congr 2
    omega

/-- **A duration is shown in hundredths.** -/
theorem writesPlaces_text (d : Duration) : WritesPlaces d.text (d.hundredths / 100) :=
  writesPlaces_placesText d.hundredths

/-! ## 2. The steps of rounding -/

/-- The length of a duration in seconds. -/
def length (d : Duration) : ℚ := d.secs + d.nanos / 1000000000

/-- **A duration as a clock gives it**: the seconds fit into 64 bits, and the nanoseconds are less
    than a second. -/
structure IsMeasured (d : Duration) : Prop where
  secs_lt : d.secs < 2 ^ 64
  nanos_lt : d.nanos < 1000000000

/-- **The steps in which a duration is rounded**: its seconds, its fraction, the sum of the two, and
    the hundredths of the sum. -/
structure Rounded (d : Duration) (s f x : Magnitude) (n : ℕ) : Prop where
  secs : Magnitude.IsNearest d.secs s
  fraction : Magnitude.IsNearest (d.nanos / 1000000000) f
  sum : Magnitude.IsNearest (s.value + f.value) x
  hundredths : RoundsTo (100 * x.value) n

variable {d d' : Duration} {s f x s' f' x' : Magnitude} {n n' : ℕ}

/-- **What is shown is rounded in these steps.** -/
theorem exists_rounded (d : Duration) : ∃ s f, Rounded d s f d.seconds d.hundredths := by
  refine ⟨_, _, ?_, ?_, Magnitude.isNearest_add _ _, ?_⟩
  · simpa using Magnitude.isNearest_nearest d.secs Nat.one_pos
  · exact_mod_cast Magnitude.isNearest_nearest d.nanos (by decide : 0 < 1000000000)
  · rw [← Magnitude.value_eq_toQuotient, ← mul_div_assoc]
    exact_mod_cast roundsTo_roundDiv (100 * d.seconds.toQuotient.1) d.seconds.toQuotient_pos

/-- The order of lengths is that of the seconds, and of the nanoseconds where these are equal. -/
theorem IsMeasured.length_le (h : IsMeasured d) (h' : IsMeasured d') (hle : d.length ≤ d'.length) :
    d.secs + 1 ≤ d'.secs ∨ d.secs = d'.secs ∧ d.nanos ≤ d'.nanos := by
  have hwhole : 1000000000 * d.secs + d.nanos ≤ 1000000000 * d'.secs + d'.nanos := by
    unfold length at hle
    have : (1000000000 * d.secs + d.nanos : ℚ) ≤ 1000000000 * d'.secs + d'.nanos := by linarith
    exact_mod_cast this
  have hnanos := h.nanos_lt
  have hnanos' := h'.nanos_lt
  omega

namespace Rounded

/-- **The fraction stays a fraction.** -/
theorem fraction_lt_one (h : Rounded d s f x n) (hd : IsMeasured d) : f.value < 1 := by
  have hnanos : (d.nanos : ℚ) ≤ 999999999 := by exact_mod_cast Nat.le_of_lt_succ hd.nanos_lt
  have hbelow : (d.nanos : ℚ) / 1000000000 < 2 ^ (0 : ℤ) := by
    rw [zpow_zero]
    linarith
  have hmoved := h.fraction.abs_sub_le (by positivity) hbelow (by decide)
  have hbit : (2 : ℚ) ^ ((0 : ℤ) - 54) = 1 / 2 ^ 54 := by norm_num
  have := (abs_le.mp (hmoved.trans_eq hbit)).2
  linarith

/-- Seconds of at most 53 bits are kept. -/
theorem secs_eq (h : Rounded d s f x n) (hsmall : d.secs < 2 ^ 53) : s.value = d.secs :=
  h.secs.value_eq_natCast hsmall

/-- Seconds of more bits do not become fewer than that. -/
theorem le_secs (h : Rounded d s f x n) (hbig : 2 ^ 53 ≤ d.secs) : 2 ^ 53 ≤ s.value := by
  have hformat : Magnitude.InFormat ⟨2 ^ 52, 1⟩ := ⟨by decide, by decide, fun _ => le_rfl⟩
  have hvalue : Magnitude.value ⟨2 ^ 52, 1⟩ = 2 ^ 53 := by norm_num [Magnitude.value]
  have hbig' : (2 : ℚ) ^ 53 ≤ d.secs := by exact_mod_cast hbig
  exact hvalue.symm.trans_le (h.secs.le hformat (hvalue.trans_le hbig'))

/-- A sum with more seconds is not rounded to less. -/
theorem sum_le_of_secs (h : Rounded d s f x n) (h' : Rounded d' s' f' x' n') (hd : IsMeasured d)
    (hsecs : d.secs + 1 ≤ d'.secs) : x.value ≤ s'.value := by
  have hsecs' : (d.secs : ℚ) + 1 ≤ d'.secs := by exact_mod_cast hsecs
  have hf := h.fraction_lt_one hd
  by_cases hsmall : d.secs < 2 ^ 53
  · -- the seconds are kept, so the sum is at most the next second
    have hs := h.secs_eq hsmall
    exact h.sum.mono h'.secs (add_nonneg s.value_nonneg f.value_nonneg) (by linarith)
  · -- the fraction is less than what is seen there
    calc x.value ≤ s.value :=
          h.sum.le_of_add_lt_one h.secs.inFormat (h.le_secs (not_lt.mp hsmall)) f.value_nonneg hf
      _ ≤ s'.value := h.secs.mono h'.secs (Nat.cast_nonneg _) (by linarith)

/-- **A longer duration has no lesser sum.** -/
theorem sum_mono (h : Rounded d s f x n) (h' : Rounded d' s' f' x' n') (hd : IsMeasured d)
    (hd' : IsMeasured d') (hle : d.length ≤ d'.length) : x.value ≤ x'.value := by
  have hnonneg : 0 ≤ s.value + f.value := add_nonneg s.value_nonneg f.value_nonneg
  rcases hd.length_le hd' hle with hsecs | ⟨hsecs, hnanos⟩
  · have hmore : s'.value ≤ s'.value + f'.value := le_add_of_nonneg_right f'.value_nonneg
    exact (h.sum_le_of_secs h' hd hsecs).trans (h'.sum.le h'.secs.inFormat hmore)
  · have hs : s = s' := by
      have hsame := h'.secs
      rw [← hsecs] at hsame
      exact h.secs.unique hsame (Nat.cast_nonneg _)
    have hf : f.value ≤ f'.value := by
      refine h.fraction.mono h'.fraction (by positivity) ?_
      have : (d.nanos : ℚ) ≤ d'.nanos := by exact_mod_cast hnanos
      linarith
    exact h.sum.mono h'.sum hnonneg (by rw [hs]; linarith)

/-- **A longer duration is not shown as less.** -/
theorem mono (h : Rounded d s f x n) (h' : Rounded d' s' f' x' n') (hd : IsMeasured d)
    (hd' : IsMeasured d') (hle : d.length ≤ d'.length) : n ≤ n' :=
  h.hundredths.mono h'.hundredths
    (mul_le_mul_of_nonneg_left (h.sum_mono h' hd hd' hle) (by norm_num))

/-- **Below 2 ^ 32 seconds little more than half a hundredth is lost.** -/
theorem abs_sub_length_le (h : Rounded d s f x n) (hd : IsMeasured d) (hsecs : d.secs < 2 ^ 32) :
    |(n : ℚ) / 100 - d.length| ≤ 0.00501 := by
  have hs : s.value = d.secs := h.secs_eq (by omega)
  have hf := h.fraction_lt_one hd
  have hf0 := f.value_nonneg
  have hsecs' : (d.secs : ℚ) + 1 ≤ 2 ^ (32 : ℤ) := by exact_mod_cast hsecs
  have hnanos : (d.nanos : ℚ) < 1000000000 := by exact_mod_cast hd.nanos_lt
  have hfraction := h.fraction.abs_sub_le (k := 0) (by positivity)
    (by rw [zpow_zero]; linarith) (by decide)
  have hsum := h.sum.abs_sub_le (k := 32) (add_nonneg s.value_nonneg hf0) (by linarith) (by decide)
  -- half a hundredth for the places, and the last bits of the sum and of the fraction
  obtain ⟨hplaceslow, hplaceshigh⟩ := abs_le.mp h.hundredths.near
  obtain ⟨hsumlow, hsumhigh⟩ := abs_le.mp hsum
  obtain ⟨hfractionlow, hfractionhigh⟩ := abs_le.mp hfraction
  rw [hs] at hsumlow hsumhigh
  norm_num at hsumlow hsumhigh hfractionlow hfractionhigh
  unfold length
  rw [abs_le]
  constructor
  · norm_num
    linarith
  · norm_num
    linarith

/-- **Nothing leaves the range of the format.** -/
theorem isFinite (h : Rounded d s f x n) (hd : IsMeasured d) :
    s.isFinite = true ∧ f.isFinite = true ∧ x.isFinite = true := by
  have hf := h.fraction_lt_one hd
  have hsecs : (d.secs : ℚ) < 2 ^ 64 := by exact_mod_cast hd.secs_lt
  have hs := h.secs.value_le (Nat.cast_nonneg _)
  have hx := h.sum.value_le (add_nonneg s.value_nonneg f.value_nonneg)
  have hend {v : ℚ} (hv : v < 2 ^ (67 : ℤ)) : v < 2 ^ (1024 : ℤ) :=
    hv.trans_le (two_zpow_mono (by decide))
  refine ⟨h.secs.inFormat.isFinite (hend ?_), h.fraction.inFormat.isFinite (hend ?_),
    h.sum.inFormat.isFinite (hend ?_)⟩ <;> norm_num <;> linarith

end Rounded

end Duration

/-! ## 3. The place in a line -/

namespace Template

variable {values more : List (String × String)} {template template' shown shown' : List Char}

/-- Templates one after the other are filled one after the other. -/
theorem Filled.append (h : Filled values template shown) (h' : Filled values template' shown') :
    Filled values (template ++ template') (shown ++ shown') := by
  induction h with
  | done => exact h'
  | char hc _ ih => exact .char hc ih
  | place hname hvalue _ ih =>
    rw [List.cons_append, List.cons_append, List.append_assoc, List.cons_append,
      List.append_assoc]
    exact .place hname hvalue ih

/-- Values that are added change nothing about the places that had one. -/
theorem Filled.append_values (h : Filled values template shown) :
    Filled (values ++ more) template shown := by
  induction h with
  | done => exact .done
  | char hc _ ih => exact .char hc ih
  | place hname hvalue _ ih =>
    refine .place hname ?_ ih
    rw [List.lookup_append, hvalue]
    rfl

end Template

namespace Message

/-- **A duration stands in its line as it is**, between a blank and its unit, and all else in the
    line is the same for every duration. -/
theorem exists_around {m : String → Message} {known : List (String × String)} {language : Language}
    (front back : String) (hvalues : ∀ d, (m d).values = known ++ [("duration", d)])
    (htemplate : ∀ d, (m d).template language = front ++ " %\x7bduration\x7ds" ++ back)
    (hnew : known.lookup "duration" = none)
    (hfront : Template.hasPlaces (known.map Prod.fst) none front.toList = true)
    (hback : Template.hasPlaces (known.map Prod.fst) none back.toList = true) :
    ∃ before after : List Char, ∀ d : String,
      ((m d).text language).toList = before ++ ' ' :: (d.toList ++ 's' :: after) := by
  refine ⟨Template.fillFrom known none front.toList, Template.fillFrom known none back.toList,
    fun d => ?_⟩
  have hsays := says_text language (m d)
  unfold Says at hsays
  rw [hvalues, htemplate, String.toList_append, String.toList_append, List.append_assoc] at hsays
  have hbefore : Template.Filled (known ++ [("duration", d)]) front.toList _ :=
    (Template.filled_fillFrom (by simp) hfront).append_values
  have hafter : Template.Filled (known ++ [("duration", d)]) back.toList _ :=
    (Template.filled_fillFrom (by simp) hback).append_values
  have hvalue : (known ++ [("duration", d)]).lookup "duration" = some d := by
    rw [List.lookup_append, hnew]
    rfl
  exact hsays.unique (hbefore.append
    (.char (by decide) (.place (by decide) hvalue (.char (by decide) hafter))))

theorem exists_around_stepExited (language : Language) (label code : String) :
    ∃ before after : List Char, ∀ d : String,
      ((stepExited label code d).text language).toList =
        before ++ ' ' :: (d.toList ++ 's' :: after) := by
  have hvalues (d : String) : (stepExited label code d).values =
      [("label", label), ("code", code)] ++ [("duration", d)] := rfl
  cases language with
  | english =>
    exact exists_around "%\x7blabel\x7d exited with code %\x7bcode\x7d after" "" hvalues
      (fun _ => rfl) rfl (Template.hasPlaces_toList rfl rfl) rfl
  | chinese =>
    exact exists_around "%\x7blabel\x7d 已退出，退出码 %\x7bcode\x7d，耗时" "" hvalues
      (fun _ => rfl) rfl (Template.hasPlaces_toList rfl rfl) rfl

theorem exists_around_stepTerminated (language : Language) (label : String) :
    ∃ before after : List Char, ∀ d : String,
      ((stepTerminated label d).text language).toList =
        before ++ ' ' :: (d.toList ++ 's' :: after) := by
  have hvalues (d : String) : (stepTerminated label d).values =
      [("label", label)] ++ [("duration", d)] := rfl
  cases language with
  | english =>
    exact exists_around "%\x7blabel\x7d was terminated without an exit code after" "" hvalues
      (fun _ => rfl) rfl (Template.hasPlaces_toList rfl rfl) rfl
  | chinese =>
    exact exists_around "%\x7blabel\x7d 在" " 后被终止，没有退出码" hvalues
      (fun _ => rfl) rfl (Template.hasPlaces_toList rfl rfl) (Template.hasPlaces_toList rfl rfl)

end Message

namespace Ansi

/-- **A style changes nothing within a text** that holds no escape. -/
theorem exists_around_paint (style : Style) (before after : List Char) :
    ∃ first last : List Char, ∀ text : List Char, escape ∉ text →
      paint style (before ++ ' ' :: (text ++ 's' :: after)) =
        first ++ ' ' :: (text ++ 's' :: last) := by
  unfold paint
  cases style.codes? with
  | none => exact ⟨before, after, fun _ _ => rfl⟩
  | some codes =>
    refine ⟨opening codes ++ reopen (opening codes) before,
      reopen (opening codes) after ++ reset, fun text h => ?_⟩
    show opening codes ++ reopen (opening codes) _ ++ reset = _
    rw [reopen_append_blank, reopen_append h, reopen_cons (by decide)]
    simp only [List.append_assoc, List.cons_append]

end Ansi

theorem WritesPlaces.escape_notMem {text : String} {p : ℚ} (h : WritesPlaces text p) :
    Ansi.escape ∉ text.toList := by
  obtain ⟨whole, places, htext, -, -, hdigits, -⟩ := h
  have hescape : Ansi.escape ∉ whole ++ places := fun hmem => by
    have hdigit := hdigits _ hmem
    revert hdigit
    decide
  rw [List.mem_append, not_or] at hescape
  rw [htext, List.mem_append, List.mem_cons]
  rintro (hmem | hpoint | hmem)
  · exact hescape.1 hmem
  · revert hpoint
    decide
  · exact hescape.2 hmem

namespace Console

variable (language : Language) (step : Step) (code : Option Int)

theorem exists_around_endMessage (label : String) :
    ∃ before after : List Char, ∀ d : Duration,
      ((endMessage label ⟨step, code, d⟩).text language).toList =
        before ++ ' ' :: (d.text.toList ++ 's' :: after) := by
  cases code with
  | none =>
    obtain ⟨before, after, h⟩ := Message.exists_around_stepTerminated language label
    exact ⟨before, after, fun d => h d.text⟩
  | some code =>
    obtain ⟨before, after, h⟩ := Message.exists_around_stepExited language label (toString code)
    exact ⟨before, after, fun d => h d.text⟩

/-- **The line of a step that ended shows its duration**, and all else in it is the same for every
    duration. -/
theorem Line.exists_around_duration (colours : Bool) :
    ∃ before after : List Char, ∀ d : Duration,
      ((stepFinished ⟨step, code, d⟩).render language colours).toList =
        before ++ ' ' :: (d.text.toList ++ 's' :: after) := by
  obtain ⟨before, after, hbody⟩ :=
    exists_around_endMessage language step code (step.kind.label language)
  have hrender (d : Duration) : ((stepFinished ⟨step, code, d⟩).render language colours).toList =
      (if colours then Ansi.paint (stepFinished ⟨step, code, .zero⟩).style
        (before ++ ' ' :: (d.text.toList ++ 's' :: after))
      else before ++ ' ' :: (d.text.toList ++ 's' :: after)) ++ ['\n'] := by
    rw [← hbody, ← Line.body_stepFinished language ⟨step, code, d⟩, render, String.toList_ofList]
    rfl
  cases colours with
  | false =>
    refine ⟨before, after ++ ['\n'], fun d => (hrender d).trans ?_⟩
    simp
  | true =>
    obtain ⟨first, last, hpaint⟩ :=
      Ansi.exists_around_paint (stepFinished ⟨step, code, .zero⟩).style before after
    refine ⟨first, last ++ ['\n'], fun d => (hrender d).trans ?_⟩
    rw [if_pos rfl, hpaint _ d.writesPlaces_text.escape_notMem]
    simp

end Console

/-! ## 4. What is shown -/

namespace Duration

/-- **Durations are shown faithfully.** In the line of a step that ended, in either language, with
    colours or without, the duration stands between a blank and its unit, and nothing else in the
    line depends on it. The number that is shown comes from rounding the seconds, the fraction,
    their sum and the hundredths to the nearest, with ties to even, and nothing leaves the range of
    the format on the way. A longer duration is never shown as less, and below 2 ^ 32 seconds the
    number is within 0.00501 of the length. -/
theorem shown_faithfully :
    (∀ language colours step code, ∃ before after : List Char, ∀ d : Duration,
      ((Console.Line.stepFinished ⟨step, code, d⟩).render language colours).toList =
        before ++ ' ' :: (d.text.toList ++ 's' :: after)) ∧
    (∀ d, IsMeasured d → ∃ (s f x : Magnitude) (n : ℕ),
      WritesPlaces d.text (n / 100) ∧ Rounded d s f x n ∧
        s.isFinite = true ∧ f.isFinite = true ∧ x.isFinite = true) ∧
    (∀ d d' p p', IsMeasured d → IsMeasured d' → d.length ≤ d'.length →
      WritesPlaces d.text p → WritesPlaces d'.text p' → p ≤ p') ∧
    (∀ d p, IsMeasured d → d.secs < 2 ^ 32 → WritesPlaces d.text p →
      |p - d.length| ≤ 0.00501) := by
  refine ⟨fun language colours step code => ?_, fun d hd => ?_,
    fun d d' p p' hd hd' hle hp hp' => ?_, fun d p hd hsecs hp => ?_⟩
  · exact Console.Line.exists_around_duration language step code colours
  · obtain ⟨s, f, h⟩ := d.exists_rounded
    exact ⟨s, f, _, _, d.writesPlaces_text, h, h.isFinite hd⟩
  · obtain ⟨s, f, h⟩ := d.exists_rounded
    obtain ⟨s', f', h'⟩ := d'.exists_rounded
    have hn : (d.hundredths : ℚ) ≤ d'.hundredths := by exact_mod_cast h.mono h' hd hd' hle
    rw [hp.unique d.writesPlaces_text, hp'.unique d'.writesPlaces_text]
    exact div_le_div_of_nonneg_right hn (by norm_num)
  · obtain ⟨s, f, h⟩ := d.exists_rounded
    rw [hp.unique d.writesPlaces_text]
    exact h.abs_sub_length_le hd hsecs

/-- Two durations near the middle of two hundredths, where few bits are left for the fraction: the
    first lies in the middle, its sum is a little less, and it is shown as the lesser hundredth. -/
theorem shown_faithfully_around_a_middle :
    let d : Duration := ⟨4294967295, 995000000⟩
    let d' : Duration := ⟨4294967295, 995000300⟩
    d.length ≤ d'.length ∧ d.text = "4294967295.99" ∧ d'.text = "4294967296.00" ∧
      (429496729599 / 100 : ℚ) ≤ 429496729600 / 100 ∧
      |(429496729599 / 100 : ℚ) - d.length| ≤ 0.00501 := by
  intro d d'
  have hd : IsMeasured d := ⟨by decide, by decide⟩
  have hd' : IsMeasured d' := ⟨by decide, by decide⟩
  have hle : d.length ≤ d'.length := by norm_num [d, d', length]
  have htext : d.text = "4294967295.99" := by decide
  have htext' : d'.text = "4294967296.00" := by decide
  have hp : WritesPlaces d.text (429496729599 / 100) := by
    rw [htext]
    exact_mod_cast writesPlaces_placesText 429496729599
  have hp' : WritesPlaces d'.text (429496729600 / 100) := by
    rw [htext']
    exact_mod_cast writesPlaces_placesText 429496729600
  exact ⟨hle, htext, htext', shown_faithfully.2.2.1 d d' _ _ hd hd' hle hp hp',
    shown_faithfully.2.2.2 d _ hd (by decide) hp⟩

end Duration
end SuiteDriver
