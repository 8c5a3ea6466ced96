import Mathlib
import WaveCast.Rounding.Float64

/-!
# Platform

What the service takes from its platform packages and from Go: the errors of
`internal/platform/errors`, the ids of `internal/platform/ids`, instants and
durations, the string functions it uses, and Go maps.
-/

namespace WaveCast

/-- Nanoseconds since the epoch. -/
abbrev Time := Int
/-- Nanoseconds. -/
abbrev Duration := Int

def second : Duration := 1000000000
def hour : Duration := 3600 * second

/-- `t.Sub(u)`: a duration has 64 bits, and the difference saturates. -/
def Time.sub (t u : Time) : Duration := max (-2 ^ 63) (min (2 ^ 63 - 1) (t - u))

/-- Nanoseconds as a fraction of a second: `float64(nsec) / 1e9`. -/
def fraction (nsec : Int) : ℚ := Float64.div (Float64.round nsec) 1000000000

/-- `d.Seconds()`: the whole seconds and the rest of `d`, added as `float64`. -/
def Duration.toSeconds (d : Duration) : ℚ :=
  Float64.add (Float64.round (d.tdiv second : ℤ)) (fraction (d.tmod second))

/-- `int64(d.Seconds())`. The sum may have been rounded up to the next second. -/
def Duration.seconds (d : Duration) : Int := Float64.trunc d.toSeconds

inductive AppError where
  | invalidArgument
  | roomNotFound
  | roomNotLive
  | invalidRoomState
  | permissionDenied
  | speakerBlocked
  | speakingBlockNotFound
  | speakerRequestNotFound
  | listenerSessionNotFound
  | recordingNotFound
  | recordingDisabled
  | reportNotFound
  | conflict
  /-- An error of a component behind one of the service's interfaces. -/
  | external (message : String)
  deriving DecidableEq, Repr

/-! ## Durations -/

section Durations

variable {d d' : Duration} {t t' u : Time}

theorem Time.sub_mono (h : t ≤ t') (u : Time) : Time.sub t u ≤ Time.sub t' u :=
  max_le_max le_rfl (min_le_min le_rfl (Int.sub_le_sub_right h u))

theorem Time.sub_nonneg (h : u ≤ t) : 0 ≤ Time.sub t u :=
  le_max_of_le_right (le_min (by decide) (Int.sub_nonneg_of_le h))

theorem Time.sub_lt (t u : Time) : Time.sub t u < 2 ^ 63 :=
  max_lt (by decide) (min_lt_of_left_lt (by decide))

theorem fraction_mono {nsec nsec' : Int} (h : 0 ≤ nsec) (hle : nsec ≤ nsec') :
    fraction nsec ≤ fraction nsec' := by
  have hq : (0 : ℚ) ≤ nsec := by exact_mod_cast h
  have hround : Float64.round nsec ≤ Float64.round nsec' :=
    Float64.round_mono hq (by exact_mod_cast hle)
  exact Float64.round_mono (div_nonneg (Float64.round_nonneg hq) (by norm_num))
    (div_le_div_of_nonneg_right hround (by norm_num))

theorem fraction_zero : fraction 0 = 0 := by
  simp [fraction, Float64.div]

theorem fraction_second : fraction second = 1 := by
  decide +kernel

/-- The rest of a duration behind its whole seconds is less than one more. -/
theorem fraction_bounds (d : Duration) : 0 ≤ fraction (d % second) ∧ fraction (d % second) ≤ 1 := by
  have hpos : (0 : Int) ≤ d % second := Int.emod_nonneg _ (by decide)
  have hlt : d % second < second := Int.emod_lt_of_pos _ (by decide)
  exact ⟨fraction_zero ▸ fraction_mono le_rfl hpos, fraction_second ▸ fraction_mono hpos hlt.le⟩

theorem Duration.toSeconds_eq (h : 0 ≤ d) (hlt : d < 2 ^ 63) :
    d.toSeconds = Float64.round ((d / second : ℤ) + fraction (d % second)) := by
  have hlow : 0 ≤ d / second := Int.ediv_nonneg h (by decide)
  have hhigh : d / second < 2 ^ 53 :=
    Int.ediv_lt_of_lt_mul (by decide) (hlt.trans_le (by decide))
  rw [Duration.toSeconds, Int.tdiv_eq_ediv_of_nonneg h, Int.tmod_eq_emod_of_nonneg h,
    Float64.round_intCast hlow hhigh, Float64.add]

theorem Duration.sum_nonneg (h : 0 ≤ d) : 0 ≤ ((d / second : ℤ) : ℚ) + fraction (d % second) := by
  have hlow : (0 : ℚ) ≤ (d / second : ℤ) := by exact_mod_cast Int.ediv_nonneg h (by decide)
  exact add_nonneg hlow (fraction_bounds d).1

theorem Duration.seconds_nonneg (h : 0 ≤ d) (hlt : d < 2 ^ 63) : 0 ≤ d.seconds := by
  rw [Duration.seconds, Duration.toSeconds_eq h hlt]
  exact Float64.trunc_nonneg (Float64.round_nonneg (Duration.sum_nonneg h))

/-- **A longer duration has no fewer seconds**, rounded as they are. -/
theorem Duration.seconds_mono (h : 0 ≤ d) (hle : d ≤ d') (hlt : d' < 2 ^ 63) :
    d.seconds ≤ d'.seconds := by
  have hsum := Duration.sum_nonneg h
  rw [Duration.seconds, Duration.seconds, Duration.toSeconds_eq h (hle.trans_lt hlt),
    Duration.toSeconds_eq (h.trans hle) hlt]
  refine Float64.trunc_mono (Float64.round_nonneg hsum) (Float64.round_mono hsum ?_)
  rcases (Int.ediv_le_ediv (by decide : 0 < second) hle).eq_or_lt with hsame | hnext
  · -- the same whole second: the rest is longer
    have hrest : d % second ≤ d' % second := by
      rw [Int.emod_def, Int.emod_def, hsame]
      exact Int.sub_le_sub_right hle _
    rw [hsame]
    exact add_le_add_right (fraction_mono (Int.emod_nonneg _ (by decide)) hrest) _
  · have hstep : ((d / second : ℤ) : ℚ) + 1 ≤ (d' / second : ℤ) := by exact_mod_cast hnext
    linarith [(fraction_bounds d).2, (fraction_bounds d').1]

/-- The rounding can reach the next second. -/
example : Duration.seconds (16777216 * second + 999999999) = 16777217 := by decide +kernel

end Durations

/-! ## Strings -/

/-- `unicode.IsSpace`. -/
def isSpace (c : Char) : Bool :=
  c = '\t' || c = '\n' || c = '\x0b' || c = '\x0c' || c = '\r' || c = ' ' ||
  c = '\u0085' || c = '\u00a0' || c = '\u1680' || ('\u2000' ≤ c && c ≤ '\u200a') ||
  c = '\u2028' || c = '\u2029' || c = '\u202f' || c = '\u205f' || c = '\u3000'

/-- Drop the characters satisfying `p` from both ends. -/
def trimChars (p : Char → Bool) (l : List Char) : List Char :=
  ((l.dropWhile p).reverse.dropWhile p).reverse

/-- `strings.TrimSpace`. -/
def trimSpace (s : String) : String := .ofList (trimChars isSpace s.toList)

/-- `strings.Trim(s, "/")`. -/
def trimSlash (s : String) : String := .ofList (trimChars (· = '/') s.toList)

/-- `strings.HasPrefix`. -/
def hasPrefix (s pfx : String) : Bool := pfx.toList.isPrefixOf s.toList

/-- `strings.Split(s, ":")`. -/
def splitColon (s : String) : List String := (s.toList.splitOn ':').map .ofList

/-! ## Ids -/

def isCrockford (c : Char) : Bool :=
  c.isDigit || (c.isUpper && c ≠ 'I' && c ≠ 'L' && c ≠ 'O' && c ≠ 'U')

/-- The text of a ULID: 26 characters of Crockford's base 32. -/
structure Ulid where
  text : String
  valid : text.toList.length = 26 ∧ text.toList.all isCrockford = true

instance : DecidableEq Ulid := fun u v =>
  decidable_of_iff (u.text = v.text) (by cases u; cases v; simp)

/-- `ids.New`, given the ULID that `ulid.Make` returned. -/
def newID (pfx : String) (u : Ulid) : String := pfx ++ "_" ++ u.text

def prefixRoom := "room"
def prefixListenerSession := "lsn"
def prefixParticipant := "part_sess"
def prefixSpeakerRequest := "spreq"
def prefixSpeakingBlock := "spblk"
def prefixListenerStream := "lst_stream"
def prefixRecording := "rec"
def prefixReport := "rep"
def prefixEvent := "evt"
def prefixJob := "job"

/-- Ids with one prefix are as distinct as their ULIDs. -/
theorem newID_injective (pfx : String) : Function.Injective (newID pfx) := by
  intro u v h
  have ht : (pfx ++ "_" ++ u.text).toList = (pfx ++ "_" ++ v.text).toList := congrArg _ h
  simp only [String.toList_append, List.append_cancel_left_eq, String.toList_inj] at ht
  cases u
  cases v
  simpa using ht

theorem newID_ne_empty (pfx : String) (u : Ulid) : newID pfx u ≠ "" := by
  intro h
  have hl := congrArg (fun s => s.toList.length) h
  simp [newID, u.valid.1] at hl

instance sampleUlids_ne_zero : NeZero (100 : ℕ) := ⟨by decide⟩

/-- A ULID that ends in the two digits of `n`, for concrete runs. -/
def sampleUlid (n : Fin 100) : Ulid where
  text := .ofList (List.replicate 24 '0' ++ [Char.ofNat (48 + n / 10), Char.ofNat (48 + n % 10)])
  valid := by
    rw [String.toList_ofList]
    revert n
    decide

/-! ## Maps -/

/-- A Go map with string keys. -/
abbrev Table (V : Type) := Finmap fun _ : String => V

namespace Table

variable {V : Type}

/-- The values in the order in which a `range` loop visits the keys. Go leaves
the order open: any enumeration of the keys without repetition may occur. -/
def range (t : Table V) (order : List String) : Option (List V) :=
  if order.Nodup ∧ order.toFinset = t.keys then some (order.filterMap t.lookup) else none

theorem lookup_insert_ite (t : Table V) (k k' : String) (v : V) :
    (t.insert k v).lookup k' = if k' = k then some v else t.lookup k' := by
  split
  · subst k'; exact Finmap.lookup_insert t
  · exact Finmap.lookup_insert_of_ne t ‹_›

/-- A loop visits exactly the stored values. -/
theorem mem_range {t : Table V} {order : List String} {vs : List V}
    (h : t.range order = some vs) (v : V) : v ∈ vs ↔ ∃ k, t.lookup k = some v := by
  simp only [range] at h
  split at h
  · rename_i ho
    cases h
    simp only [List.mem_filterMap]
    constructor
    · rintro ⟨k, -, hk⟩
      exact ⟨k, hk⟩
    · rintro ⟨k, hk⟩
      refine ⟨k, ?_, hk⟩
      rw [← List.mem_toFinset, ho.2, Finmap.mem_keys]
      exact Finmap.mem_iff.mpr ⟨v, hk⟩
  · cases h

/-- The loop visits each key once, so it visits no value twice. -/
theorem nodup_range {t : Table V} {ident : V → String}
    (hident : ∀ k v, t.lookup k = some v → ident v = k) {order : List String} {vs : List V}
    (hvs : t.range order = some vs) : (vs.map ident).Nodup := by
  simp only [range] at hvs
  split at hvs
  · rename_i ho
    cases hvs
    rw [List.map_filterMap]
    refine ho.1.filterMap ?_
    intro k k' id hk hk'
    obtain ⟨v, hv, rfl⟩ := Option.map_eq_some_iff.mp hk
    obtain ⟨v', hv', hid⟩ := Option.map_eq_some_iff.mp hk'
    rw [← hident k v hv, ← hident k' v' hv', hid]
  · cases hvs

end Table

end WaveCast
