import WaveCast.Dispatcher
import WaveCast.Interaction.Parts

/-!
# User profiles

The profile handlers of `internal/transport/http`. A handler reads the stored
profile, changes its group of fields and saves the whole profile;
`userProfilesMu` is held for each of the two calls and not in between. So any
number of requests is a pool whose calls are `getStoredUserProfile` and
`saveStoredUserProfile`. A group of fields holds what the last request for it
saved, in every state of a run, iff no request saves a group that is not its
own over a save since its read (`profile_updates_iff`).
-/

namespace WaveCast.Profiles

open Interaction Program Dispatcher

/-! ## Profiles -/

/-- The default value is Go's zero value, as for the requests below. -/
structure DeviceSettings where
  preferredMicrophoneID : String
  preferredSpeakerID : String
  noiseSuppression : Bool
  echoCancellation : Bool
  autoGainControl : Bool
  joinMuted : Bool
  deriving DecidableEq, Inhabited

structure UserProfile where
  userID : String
  displayName : String
  username : String
  role : String
  bio : String
  avatarURL : String
  avatarFileName : String
  deviceSettings : DeviceSettings
  updatedAt : String
  deriving DecidableEq

/-- `now` is the clock as RFC 3339 text. -/
def defaultUserProfile (now userID : String) : UserProfile :=
  let profile : UserProfile :=
    { userID, displayName := userID, username := trimPrefix userID "user_", role := "Listener"
      bio := "", avatarURL := "", avatarFileName := ""
      deviceSettings :=
        { preferredMicrophoneID := "", preferredSpeakerID := "", noiseSuppression := true
          echoCancellation := true, autoGainControl := true, joinMuted := true }
      updatedAt := now }
  if userID = "user_brian" then
    { profile with
      displayName := "Brian Miller", username := "brian.miller", role := "Host"
      bio := "Host of practical AI rooms, product sessions, and builder roundtables."
      avatarURL := "https://i.pravatar.cc/160?img=12" }
  else profile

/-! ## The stored profiles -/

/-- A profile that is missing is created. -/
def getStoredUserProfile (now userID : String) (userProfiles : Table UserProfile) :
    UserProfile × Table UserProfile :=
  match userProfiles.lookup userID with
  | some profile => (profile, userProfiles)
  | none => (defaultUserProfile now userID,
      userProfiles.insert userID (defaultUserProfile now userID))

def saveStoredUserProfile (now : String) (profile : UserProfile)
    (userProfiles : Table UserProfile) : UserProfile × Table UserProfile :=
  let profile := { profile with updatedAt := now }
  (profile, userProfiles.insert profile.userID profile)

inductive ProfileEffect where
  | getStoredUserProfile (userID : String)
  | saveStoredUserProfile (profile : UserProfile)
  deriving DecidableEq

abbrev profileEffects : Signature := ⟨ProfileEffect, fun _ => UserProfile⟩

abbrev ProfileAction := Program profileEffects AppError

def ask (e : ProfileEffect) : ProfileAction UserProfile := perform (S := profileEffects) e

/-! ## The handlers -/

structure UpdateUserProfileRequest where
  displayName : String
  username : String
  bio : String
  deriving DecidableEq, Inhabited

structure UpdateAvatarRequest where
  avatarURL : String
  avatarFileName : String
  deriving DecidableEq, Inhabited

/-- What the decoder makes of the body of a request. -/
inductive Body (α : Type) where
  | empty
  | invalid
  | decoded (req : α)
  deriving DecidableEq

def decodeJSON {α : Type} [Inhabited α] : Body α → ProfileAction α
  | .empty => pure default
  | .invalid => .fail .invalidArgument
  | .decoded req => pure req

def getUserProfile (userID : String) : ProfileAction UserProfile :=
  ask (.getStoredUserProfile userID)

def updateUserProfile (userID : String) (body : Body UpdateUserProfileRequest) :
    ProfileAction UserProfile := do
  let req ← decodeJSON body
  let profile ← ask (.getStoredUserProfile userID)
  let profile := if trimSpace req.displayName ≠ "" then
    { profile with displayName := trimSpace req.displayName } else profile
  let profile := if trimSpace req.username ≠ "" then
    { profile with username := trimSpace req.username } else profile
  ask (.saveStoredUserProfile { profile with bio := trimSpace req.bio })

def updateUserAvatar (userID : String) (body : Body UpdateAvatarRequest) :
    ProfileAction UserProfile := do
  let req ← decodeJSON body
  let profile ← ask (.getStoredUserProfile userID)
  ask (.saveStoredUserProfile { profile with
    avatarURL := trimSpace req.avatarURL, avatarFileName := trimSpace req.avatarFileName })

def removeUserAvatar (userID : String) : ProfileAction UserProfile := do
  let profile ← ask (.getStoredUserProfile userID)
  ask (.saveStoredUserProfile { profile with avatarURL := "", avatarFileName := "" })

def updateUserDeviceSettings (userID : String) (body : Body DeviceSettings) :
    ProfileAction UserProfile := do
  let req ← decodeJSON body
  let profile ← ask (.getStoredUserProfile userID)
  ask (.saveStoredUserProfile { profile with deviceSettings := req })

inductive ProfileRequest where
  | getUserProfile (userID : String)
  | updateUserProfile (userID : String) (body : Body UpdateUserProfileRequest)
  | updateUserAvatar (userID : String) (body : Body UpdateAvatarRequest)
  | removeUserAvatar (userID : String)
  | updateUserDeviceSettings (userID : String) (body : Body DeviceSettings)
  deriving DecidableEq

def ProfileRequest.program : ProfileRequest → ProfileAction UserProfile
  | .getUserProfile userID => Profiles.getUserProfile userID
  | .updateUserProfile userID body => Profiles.updateUserProfile userID body
  | .updateUserAvatar userID body => Profiles.updateUserAvatar userID body
  | .removeUserAvatar userID => Profiles.removeUserAvatar userID
  | .updateUserDeviceSettings userID body => Profiles.updateUserDeviceSettings userID body

/-- `now` is the clock at the call. -/
def profileExec (now : String) (e : ProfileEffect) (userProfiles : Table UserProfile) :
    Option (UserProfile × Table UserProfile) :=
  match e with
  | .getStoredUserProfile userID => some (getStoredUserProfile now userID userProfiles)
  | .saveStoredUserProfile profile => some (saveStoredUserProfile now profile userProfiles)

def profileSystem :
    System profileEffects ProfileRequest String AppError UserProfile (Table UserProfile) where
  program := ProfileRequest.program
  exec := profileExec
  init := ∅

abbrev ProfileMove := Move ProfileRequest String
abbrev ProfileEntry := Entry profileEffects ProfileRequest String
abbrev ProfilePool :=
  Pool profileEffects ProfileRequest String AppError UserProfile (Table UserProfile)

/-! ## Groups of fields -/

inductive FieldGroup where
  | details
  | avatar
  | deviceSettings
  deriving DecidableEq

abbrev FieldGroup.Values : FieldGroup → Type
  | .details => String × String × String
  | .avatar => String × String
  | .deviceSettings => DeviceSettings

def UserProfile.values (g : FieldGroup) (profile : UserProfile) : g.Values :=
  match g with
  | .details => (profile.displayName, profile.username, profile.bio)
  | .avatar => (profile.avatarURL, profile.avatarFileName)
  | .deviceSettings => profile.deviceSettings

/-- The user the request is about. -/
def ProfileRequest.userID : ProfileRequest → String
  | .getUserProfile userID => userID
  | .updateUserProfile userID _ => userID
  | .updateUserAvatar userID _ => userID
  | .removeUserAvatar userID => userID
  | .updateUserDeviceSettings userID _ => userID

/-- The fields the request is for. -/
def ProfileRequest.group : ProfileRequest → Option FieldGroup
  | .getUserProfile _ => none
  | .updateUserProfile _ _ => some .details
  | .updateUserAvatar _ _ | .removeUserAvatar _ => some .avatar
  | .updateUserDeviceSettings _ _ => some .deviceSettings

def savedProfile (e : ProfileEntry) : Option (String × UserProfile) :=
  match e.exchange with
  | ⟨.saveStoredUserProfile _, profile⟩ => some (profile.userID, profile)
  | ⟨.getStoredUserProfile _, _⟩ => none

def readProfile (e : ProfileEntry) : Option (String × UserProfile) :=
  match e.exchange with
  | ⟨.getStoredUserProfile userID, profile⟩ => some (userID, profile)
  | ⟨.saveStoredUserProfile _, _⟩ => none

/-- The profile with the last save of a request for the group `g`. -/
def lastUpdate (g : FieldGroup) (userID : String) (t : List ProfileEntry) : UserProfile :=
  valueAt (writesOf savedProfile (·.cmd.group) g) (defaultUserProfile "") userID t

/-- In every state of the run, each group of fields of a stored profile is as
the last request of that group left it. -/
def UpdatesKept (ms : List ProfileMove) : Prop :=
  ∀ n p userID profile g, profileSystem.run (ms.take n) = some p →
    p.state.lookup userID = some profile →
    profile.values g = (lastUpdate g userID p.trace).values g

/-- When a request saves, it has read of every group that is not its own what
the last save of that group since then, if there is one, put there. -/
def NoStaleFields (t : List ProfileEntry) : Prop :=
  NoStaleParts savedProfile readProfile (·.thread) (·.cmd.group) UserProfile.values t

/-! ## What requests do -/

/-- What a request for `userID` and `group` asks next, given what it has asked. -/
def FieldsProtocol (userID : String) (group : Option FieldGroup)
    (h : List (Exchange profileEffects)) : ProfileEffect → Prop
  | .getStoredUserProfile userID' => userID' = userID ∧ h = []
  | .saveStoredUserProfile profile => ∃ stored, h = [⟨.getStoredUserProfile userID, stored⟩] ∧
      profile.userID = stored.userID ∧
      ∀ g, group ≠ some g → profile.values g = stored.values g

section Follows

variable {userID : String} {Q : List (Exchange profileEffects) → Except AppError UserProfile → Prop}

theorem decodeJSON_follows {α β : Type} [Inhabited α]
    {P : List (Exchange profileEffects) → ProfileEffect → Prop}
    {Q : List (Exchange profileEffects) → Except AppError β → Prop}
    {h : List (Exchange profileEffects)} {f : α → ProfileAction β}
    (hf : ∀ req, Follows (S := profileEffects) P Q h (f req)) (herr : ∀ e, Q h (.error e))
    (body : Body α) : Follows (S := profileEffects) P Q h ((decodeJSON body).bind f) := by
  cases body with
  | empty => exact hf default
  | invalid => exact herr _
  | decoded req => exact hf req

/-- A request that reads the profile and saves it with its own fields changed. -/
theorem edit_follows {group : Option FieldGroup} {edit : UserProfile → UserProfile}
    (hid : ∀ profile, (edit profile).userID = profile.userID)
    (hvalues : ∀ profile g, group ≠ some g → (edit profile).values g = profile.values g) :
    Follows (S := profileEffects) (FieldsProtocol userID group) (fun _ _ => True) []
      ((ask (.getStoredUserProfile userID)).bind fun profile =>
        ask (.saveStoredUserProfile (edit profile))) := by
  refine ⟨⟨rfl, rfl⟩, fun stored => ⟨⟨stored, rfl, hid stored, hvalues stored⟩, fun _ => trivial⟩⟩

theorem request_follows (req : ProfileRequest) :
    Follows (S := profileEffects) (FieldsProtocol req.userID req.group) (fun _ _ => True) []
      req.program := by
  cases req with
  | getUserProfile userID => exact ⟨⟨rfl, rfl⟩, fun _ => trivial⟩
  | updateUserProfile userID body =>
    refine decodeJSON_follows (fun req => ?_) (fun _ => trivial) body
    refine edit_follows (fun profile => ?_) fun profile g hg => ?_
    · dsimp only
      split <;> split <;> rfl
    · cases g with
      | details => exact absurd rfl hg
      | avatar => split <;> split <;> rfl
      | deviceSettings => split <;> split <;> rfl
  | updateUserAvatar userID body =>
    refine decodeJSON_follows (fun req => ?_) (fun _ => trivial) body
    refine edit_follows (fun _ => rfl) fun profile g hg => ?_
    cases g with
    | avatar => exact absurd rfl hg
    | details => rfl
    | deviceSettings => rfl
  | removeUserAvatar userID =>
    refine edit_follows (fun _ => rfl) fun profile g hg => ?_
    cases g with
    | avatar => exact absurd rfl hg
    | details => rfl
    | deviceSettings => rfl
  | updateUserDeviceSettings userID body =>
    refine decodeJSON_follows (fun req => ?_) (fun _ => trivial) body
    refine edit_follows (fun _ => rfl) fun profile g hg => ?_
    cases g with
    | deviceSettings => exact absurd rfl hg
    | details => rfl
    | avatar => rfl

end Follows

/-! ## What is stored -/

theorem savedProfile_eq_some {e : ProfileEntry} {k : String} {profile : UserProfile} :
    savedProfile e = some (k, profile) ↔
      (∃ saved, e.exchange = ⟨.saveStoredUserProfile saved, profile⟩) ∧ profile.userID = k := by
  obtain ⟨i, req, now, ⟨c, a⟩⟩ := e
  cases c with
  | getStoredUserProfile userID => simp [savedProfile]
  | saveStoredUserProfile saved =>
    simp only [savedProfile, Option.some.injEq, Prod.mk.injEq]
    constructor
    · rintro ⟨rfl, rfl⟩
      exact ⟨⟨saved, rfl⟩, rfl⟩
    · rintro ⟨⟨_, hx⟩, rfl⟩
      cases hx
      exact ⟨rfl, rfl⟩

theorem readProfile_eq_some {e : ProfileEntry} {k : String} {profile : UserProfile} :
    readProfile e = some (k, profile) ↔ e.exchange = ⟨.getStoredUserProfile k, profile⟩ := by
  obtain ⟨i, req, now, ⟨c, a⟩⟩ := e
  cases c with
  | getStoredUserProfile userID =>
    simp only [readProfile, Option.some.injEq, Prod.mk.injEq]
    constructor
    · rintro ⟨rfl, rfl⟩
      rfl
    · rintro hx
      cases hx
      exact ⟨rfl, rfl⟩
  | saveStoredUserProfile saved => simp [readProfile]

theorem readProfile_not_save (e : ProfileEntry) (h : (readProfile e).isSome) :
    savedProfile e = none := by
  obtain ⟨⟨k, profile⟩, hr⟩ := Option.isSome_iff_exists.mp h
  simp [savedProfile, readProfile_eq_some.mp hr]

theorem defaultUserProfile_userID (now userID : String) :
    (defaultUserProfile now userID).userID = userID := by
  rw [defaultUserProfile]
  split <;> rfl

/-- The clock is not part of any group. -/
theorem defaultUserProfile_values (now userID : String) (g : FieldGroup) :
    (defaultUserProfile now userID).values g = (defaultUserProfile "" userID).values g := by
  rw [defaultUserProfile, defaultUserProfile]
  cases g <;> split <;> rfl

/-- This is the user's profile, with the fields that were saved last or are the
default. -/
def IsCurrent (t : List ProfileEntry) (userID : String) (profile : UserProfile) : Prop :=
  profile.userID = userID ∧
    ∀ g, profile.values g = (valueAt savedProfile (defaultUserProfile "") userID t).values g

theorem default_isCurrent {t : List ProfileEntry} {userID : String}
    (hnone : lastWrite savedProfile userID t = none) (now : String) :
    IsCurrent t userID (defaultUserProfile now userID) := by
  refine ⟨defaultUserProfile_userID now userID, fun g => ?_⟩
  rw [valueAt, hnone, Option.getD_none, defaultUserProfile_values]

/-- What is stored for a user is current, and what was saved is stored. -/
structure Shows (t : List ProfileEntry) (userProfiles : Table UserProfile) : Prop where
  stored : ∀ userID profile, userProfiles.lookup userID = some profile → IsCurrent t userID profile
  missing : ∀ userID, userProfiles.lookup userID = none → lastWrite savedProfile userID t = none

theorem Shows.get {t : List ProfileEntry} {userProfiles : Table UserProfile}
    (hs : Shows t userProfiles) {e : ProfileEntry} (he : savedProfile e = none)
    (now userID : String) :
    Shows (e :: t) (getStoredUserProfile now userID userProfiles).2 := by
  have hkept : Shows (e :: t) userProfiles := by
    constructor
    · intro userID profile hl
      rw [IsCurrent, valueAt_other (by simp [he])]
      exact hs.stored userID profile hl
    · intro userID hl
      rw [lastWrite_cons_other (by simp [he])]
      exact hs.missing userID hl
  rw [getStoredUserProfile]
  split
  · exact hkept
  · rename_i hnone
    constructor
    · intro userID' profile hl
      rw [Table.lookup_insert_ite] at hl
      split at hl
      · rename_i huser
        cases hl
        subst huser
        exact default_isCurrent (hkept.missing _ hnone) now
      · exact hkept.stored userID' profile hl
    · intro userID' hl
      rw [Table.lookup_insert_ite] at hl
      split at hl
      · cases hl
      · exact hkept.missing userID' hl

theorem Shows.save {t : List ProfileEntry} {userProfiles : Table UserProfile}
    (hs : Shows t userProfiles) {e : ProfileEntry} (now : String) (profile : UserProfile)
    (he : savedProfile e =
      some (profile.userID, (saveStoredUserProfile now profile userProfiles).1)) :
    Shows (e :: t) (saveStoredUserProfile now profile userProfiles).2 := by
  constructor
  · intro userID profile' hl
    rw [saveStoredUserProfile, Table.lookup_insert_ite] at hl
    split at hl
    · rename_i huser
      cases hl
      subst huser
      exact ⟨rfl, fun g => by rw [valueAt_self he]; rfl⟩
    · rename_i huser
      rw [IsCurrent, valueAt_other (by simp [he, Ne.symm huser])]
      exact hs.stored userID profile' hl
  · intro userID hl
    rw [saveStoredUserProfile, Table.lookup_insert_ite] at hl
    split at hl
    · cases hl
    · rename_i huser
      rw [lastWrite_cons_other (by simp [he, Ne.symm huser])]
      exact hs.missing userID hl

theorem shows_of_replays {t : List ProfileEntry} {userProfiles : Table UserProfile}
    (h : profileSystem.Replays t userProfiles) : Shows t userProfiles := by
  refine System.replays_induction (I := Shows) ⟨fun userID profile hl => ?_, fun _ _ => rfl⟩ ?_ h
  · simp [profileSystem] at hl
  · rintro ⟨i, req, now, ⟨c, a⟩⟩ older s₀ s - hs hx
    cases c with
    | getStoredUserProfile userID =>
      obtain ⟨-, rfl⟩ := Prod.mk.inj (Option.some.inj hx)
      exact hs.get rfl now userID
    | saveStoredUserProfile profile =>
      simp only [profileSystem, profileExec, saveStoredUserProfile, Option.some.injEq,
        Prod.mk.injEq] at hx
      obtain ⟨rfl, rfl⟩ := hx
      exact hs.save now profile rfl

/-- A read returns the user's current profile. -/
theorem Shows.read {t : List ProfileEntry} {userProfiles : Table UserProfile}
    (hs : Shows t userProfiles) (now userID : String) :
    IsCurrent t userID (getStoredUserProfile now userID userProfiles).1 := by
  rw [getStoredUserProfile]
  split
  · rename_i hl
    exact hs.stored userID _ hl
  · rename_i hnone
    exact default_isCurrent (hs.missing userID hnone) now

section Run

variable {ms : List ProfileMove} {p : ProfilePool}

theorem profiles_read (h : profileSystem.run ms = some p) :
    Always (fun older e => ∀ userID profile, readProfile e = some (userID, profile) →
      IsCurrent older userID profile) p.trace := by
  rw [always_iff]
  intro newer e older ht userID profile hr
  have hrep := System.run_replays h
  rw [ht] at hrep
  obtain ⟨s, s₀, h₀, hx⟩ := hrep.of_append
  rw [readProfile_eq_some.mp hr] at hx
  have hget : (getStoredUserProfile e.env userID s₀).1 = profile :=
    congrArg Prod.fst (Option.some.inj hx)
  rw [← hget]
  exact (shows_of_replays h₀).read e.env userID

/-- A request saves what it read, with only its own fields changed. -/
theorem profile_saved (h : profileSystem.run ms = some p) :
    Always (fun older e => ∀ k profile, savedProfile e = some (k, profile) → ∃ stored,
      threadHistory e.thread older = [⟨.getStoredUserProfile k, stored⟩] ∧
      ∀ g, e.cmd.group ≠ some g → profile.values g = stored.values g) p.trace := by
  have hasks := System.run_always request_follows h
  have hread := profiles_read h
  have hrep := System.run_replays h
  rw [always_iff]
  intro newer e older ht k profile hw
  rw [ht] at hasks hread hrep
  obtain ⟨⟨saved, hx⟩, rfl⟩ := savedProfile_eq_some.mp hw
  have hsave := hasks.at
  rw [hx] at hsave
  obtain ⟨stored, hh, hid, hvalues⟩ := hsave
  obtain ⟨s, s₀, -, hexec⟩ := hrep.of_append
  rw [hx] at hexec
  have hprofile : (saveStoredUserProfile e.env saved s₀).1 = profile :=
    congrArg Prod.fst (Option.some.inj hexec)
  subst hprofile
  refine ⟨stored, ?_, hvalues⟩
  -- the profile that was read is the user's own
  obtain ⟨mid, r, rest, rfl, -, hr⟩ := exists_read (hh ▸ List.mem_singleton_self _)
  have hown := (hread.of_append.2.at _ _ (readProfile_eq_some.mpr hr)).1
  rw [hh, show (saveStoredUserProfile e.env saved s₀).1.userID = saved.userID from rfl, hid, hown]

theorem profiles_edited (h : profileSystem.run ms = some p) :
    EditsOwned savedProfile readProfile (·.thread) (·.cmd.group) UserProfile.values p.trace := by
  refine (profile_saved h).mono fun older e hsaved k profile hw => ?_
  obtain ⟨stored, hh, hvalues⟩ := hsaved k profile hw
  constructor
  · obtain ⟨mid, r, rest, rfl, hthread, hr⟩ := exists_read (hh ▸ List.mem_singleton_self _)
    exact ⟨mid, stored, r, rest, rfl, hthread, readProfile_eq_some.mpr hr⟩
  · rintro mid v₀ ⟨r, rest, rfl, hthread, hr⟩ g hg
    have hr' : r ∈ mid ++ r :: rest := List.mem_append_right _ List.mem_cons_self
    have hmem := mem_threadHistory.mpr ⟨r, hr', hthread, readProfile_eq_some.mp hr⟩
    rw [hh, List.mem_singleton] at hmem
    cases hmem
    exact hvalues g hg

end Run

/-- **Updates of different fields are not lost** in a run iff no request saves
fields of another group as it read them after a request of that group has
saved others. -/
theorem profile_updates_iff (ms : List ProfileMove) (p : ProfilePool)
    (h : profileSystem.run ms = some p) : UpdatesKept ms ↔ NoStaleFields p.trace := by
  have hread : ReadsParts savedProfile readProfile UserProfile.values (defaultUserProfile "")
      p.trace :=
    (profiles_read h).mono fun _ _ hr k profile hw => (hr k profile hw).2
  rw [NoStaleFields, ← parts_current_iff hread (profiles_edited h) readProfile_not_save]
  constructor
  · intro hkept newer older ht userID g
    obtain ⟨n, q, hq, rfl⟩ := System.run_prefix h ht
    have hs := shows_of_replays (System.run_replays hq)
    cases hl : q.state.lookup userID with
    | none =>
      have hnone := hs.missing userID hl
      rw [valueAt, valueAt, hnone, lastWrite_writesOf_none hnone]
    | some profile =>
      rw [← (hs.stored userID profile hl).2 g]
      exact hkept n q userID profile g hq hl
  · intro hcur n q userID profile g hq hl
    obtain ⟨q', newer, hq', ht⟩ := System.run_take h n
    cases hq.symm.trans hq'
    rw [((shows_of_replays (System.run_replays hq)).stored userID profile hl).2 g]
    exact hcur newer q.trace ht userID g

/-- One request sets the avatar of a guest, another one the guest's microphone. -/
def setAvatar : ProfileRequest :=
  .updateUserAvatar "guest" (.decoded ⟨"https://images/guest.png", "guest.png"⟩)

def setMicrophone : ProfileRequest :=
  .updateUserDeviceSettings "guest" (.decoded { (default : DeviceSettings) with
    preferredMicrophoneID := "microphone" })

/-- Both requests have read the profile when the first one saves it. -/
def crossedRequests : List ProfileMove :=
  [.start setAvatar, .start setMicrophone, .call 0 "", .call 1 "", .call 0 "", .call 1 ""]

theorem profile_updates_fail :
    ¬ ∀ (ms : List ProfileMove) (p : ProfilePool), profileSystem.run ms = some p →
      UpdatesKept ms := by
  intro hclaim
  have hrun : (profileSystem.run crossedRequests).any (fun p =>
      (p.state.lookup "guest").any (·.avatarURL = "") &&
        (lastUpdate .avatar "guest" p.trace).avatarURL = "https://images/guest.png") = true := by
    decide +kernel
  obtain ⟨p, hp, hfacts⟩ := (Option.any_eq_true _ _).mp hrun
  obtain ⟨hstored, hlast⟩ := Bool.and_eq_true_iff.mp hfacts
  obtain ⟨profile, hl, havatar⟩ := (Option.any_eq_true _ _).mp hstored
  have hkept := hclaim _ p hp crossedRequests.length p "guest" profile .avatar
    (by rw [List.take_length]; exact hp) hl
  have hurl : profile.avatarURL = (lastUpdate .avatar "guest" p.trace).avatarURL :=
    congrArg Prod.fst hkept
  rw [of_decide_eq_true havatar, of_decide_eq_true hlast] at hurl
  exact absurd hurl (by decide)

/-- The second request reads the profile after the first one has saved it. -/
def orderedRequests : List ProfileMove :=
  [.start setAvatar, .start setMicrophone, .call 0 "", .call 0 "", .call 1 "", .call 1 ""]

/-- A request that saves right behind its read has missed nothing. -/
theorem noStaleFields_of_adjacent {t : List ProfileEntry} (h : Always (fun older e =>
    (savedProfile e).isSome → ∀ r ∈ older.tail, r.thread ≠ e.thread) t) : NoStaleFields t := by
  refine h.mono fun older e hlast k v mid v₀ hw hwb g _ v' hmid => ?_
  obtain ⟨r, rest, rfl, hclient, -⟩ := hwb
  cases mid with
  | nil => cases hmid
  | cons f mid => exact absurd hclient (hlast (by rw [hw]; rfl) r (by simp))

theorem profile_updates_in_order :
    ∃ p, profileSystem.run orderedRequests = some p ∧
      (lastUpdate .avatar "guest" p.trace).avatarURL = "https://images/guest.png" ∧
      UpdatesKept orderedRequests := by
  have hrun : (profileSystem.run orderedRequests).any (fun p =>
      (lastUpdate .avatar "guest" p.trace).avatarURL = "https://images/guest.png" ∧
        Always (fun older e => (savedProfile e).isSome → ∀ r ∈ older.tail, r.thread ≠ e.thread)
          p.trace) = true := by
    decide +kernel
  obtain ⟨p, hp, hfacts⟩ := (Option.any_eq_true _ _).mp hrun
  obtain ⟨havatar, hadjacent⟩ := of_decide_eq_true hfacts
  exact ⟨p, hp, havatar, (profile_updates_iff _ p hp).mpr (noStaleFields_of_adjacent hadjacent)⟩

end WaveCast.Profiles
