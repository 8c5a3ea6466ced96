import WaveCast.Keyspace.Commands
import WaveCast.Memory

/-!
# Presence in Redis

`internal/infra/redis/presence_store.go` on a keyspace. Each method that writes
is one transaction; the counts are the sizes of one set for each room. The two
presence stores answer alike (`presence_stores_alike`): the keys of the two
counted sets are those of nothing else, and only keys of sessions expire.
-/

namespace WaveCast

open Keyspace (Command Scheme)

/-! ## Keys -/

def listenerLastSeenKey (sessionID : String) : String :=
  "listener_session:" ++ sessionID ++ ":last_seen"

def listenerStateKey (sessionID : String) : String := "listener_session:" ++ sessionID ++ ":state"

def roomListenersKey (roomID : String) : String := "room:" ++ roomID ++ ":listeners"

def participantStateKey (sessionID : String) : String :=
  "participant_session:" ++ sessionID ++ ":state"

def roomParticipantsKey (roomID : String) : String := "room:" ++ roomID ++ ":participants"

/-- The five formats of keys. -/
inductive PresenceKey where
  | listenerLastSeen (sessionID : String)
  | listenerState (sessionID : String)
  | roomListeners (roomID : String)
  | participantState (sessionID : String)
  | roomParticipants (roomID : String)
  deriving DecidableEq

def PresenceKey.text : PresenceKey → String
  | listenerLastSeen sessionID => listenerLastSeenKey sessionID
  | listenerState sessionID => listenerStateKey sessionID
  | roomListeners roomID => roomListenersKey roomID
  | participantState sessionID => participantStateKey sessionID
  | roomParticipants roomID => roomParticipantsKey roomID

namespace PresenceKey

/-- What stands before and behind the id. -/
def ends : PresenceKey → String × String
  | listenerLastSeen _ => ("listener_session:", ":last_seen")
  | listenerState _ => ("listener_session:", ":state")
  | roomListeners _ => ("room:", ":listeners")
  | participantState _ => ("participant_session:", ":state")
  | roomParticipants _ => ("room:", ":participants")

def id : PresenceKey → String
  | listenerLastSeen sessionID | listenerState sessionID | participantState sessionID => sessionID
  | roomListeners roomID | roomParticipants roomID => roomID

theorem text_eq (key : PresenceKey) : key.text = key.ends.1 ++ key.id ++ key.ends.2 := by
  cases key <;> rfl

theorem prefix_text (key : PresenceKey) : key.ends.1.toList <+: key.text.toList := by
  rw [text_eq, String.toList_append, String.toList_append, List.append_assoc]
  exact List.prefix_append _ _

theorem suffix_text (key : PresenceKey) : key.ends.2.toList <:+ key.text.toList := by
  rw [text_eq, String.toList_append]
  exact List.suffix_append _ _

/-- Texts that begin and end alike are of one format. -/
theorem ends_eq {key key' : PresenceKey}
    (hpre : key.ends.1.toList <+: key'.ends.1.toList ∨ key'.ends.1.toList <+: key.ends.1.toList)
    (hsuf : key.ends.2.toList <:+ key'.ends.2.toList ∨ key'.ends.2.toList <:+ key.ends.2.toList) :
    key.ends = key'.ends := by
  cases key <;> cases key' <;> simp only [ends] at hpre hsuf ⊢
  all_goals
    first
    | exact absurd hpre (by decide +kernel)
    | exact absurd hsuf (by decide +kernel)

/-- No two keys have one text, whatever the ids. -/
theorem text_injective : Function.Injective text := by
  intro key key' h
  have hends : key.ends = key'.ends :=
    ends_eq (List.prefix_or_prefix_of_prefix key.prefix_text (h ▸ key'.prefix_text))
      (List.suffix_or_suffix_of_suffix key.suffix_text (h ▸ key'.suffix_text))
  rw [text_eq, text_eq, hends, String.append_left_inj, String.append_right_inj] at h
  cases key <;> cases key' <;> simp_all [ends, id]

end PresenceKey

/-! ## The store -/

namespace Redis

/-- The client turns a time to live into the milliseconds it has the server count
after `SET` and after `EXPIRE`. -/
structure PresenceStore where
  setTTL : Duration → Int
  expireTTL : Duration → Int

variable (s : PresenceStore)

/-- `lastSeen` is the clock of the service as text. -/
def markListenerActive (lastSeen roomID sessionID userID : String) (ttl : Duration) :
    List (Command String) :=
  [.set (listenerLastSeenKey sessionID) lastSeen (s.setTTL ttl),
    .hset (listenerStateKey sessionID)
      [("roomId", roomID), ("userId", userID), ("status", "active")],
    .expire (listenerStateKey sessionID) (s.expireTTL ttl),
    .sadd (roomListenersKey roomID) sessionID]

def touchListener (lastSeen roomID sessionID : String) (ttl : Duration) : List (Command String) :=
  [.set (listenerLastSeenKey sessionID) lastSeen (s.setTTL ttl),
    .expire (listenerStateKey sessionID) (s.expireTTL ttl),
    .sadd (roomListenersKey roomID) sessionID]

def markListenerInactive (roomID sessionID : String) : List (Command String) :=
  [.del [listenerLastSeenKey sessionID, listenerStateKey sessionID],
    .srem (roomListenersKey roomID) sessionID]

def markParticipantActive (roomID sessionID userID : String) (ttl : Duration) :
    List (Command String) :=
  [.hset (participantStateKey sessionID)
      [("roomId", roomID), ("userId", userID), ("status", "active")],
    .expire (participantStateKey sessionID) (s.expireTTL ttl),
    .sadd (roomParticipantsKey roomID) sessionID]

def markParticipantInactive (roomID sessionID : String) : List (Command String) :=
  [.del [participantStateKey sessionID], .srem (roomParticipantsKey roomID) sessionID]

/-- One call, at a time of the server. -/
def step (now : Int) (lastSeen : String) : (c : PresenceCall) → Keyspace.Store String →
    Except Keyspace.CommandError c.Result × Keyspace.Store String
  | .markListenerActive roomID sessionID userID ttl, k =>
      Keyspace.transact now (markListenerActive s lastSeen roomID sessionID userID ttl) k
  | .touchListener roomID sessionID ttl, k =>
      Keyspace.transact now (touchListener s lastSeen roomID sessionID ttl) k
  | .markListenerInactive roomID sessionID, k =>
      Keyspace.transact now (markListenerInactive roomID sessionID) k
  | .activeListenerCount roomID, k => (Keyspace.scard now (roomListenersKey roomID) k, k)
  | .markParticipantActive roomID sessionID userID ttl, k =>
      Keyspace.transact now (markParticipantActive s roomID sessionID userID ttl) k
  | .markParticipantInactive roomID sessionID, k =>
      Keyspace.transact now (markParticipantInactive roomID sessionID) k
  | .activeParticipantCount roomID, k => (Keyspace.scard now (roomParticipantsKey roomID) k, k)

/-! ## The kinds of the keys -/

def kind : PresenceKey → Keyspace.Kind
  | .listenerLastSeen _ => .string
  | .listenerState _ | .participantState _ => .hash
  | .roomListeners _ | .roomParticipants _ => .set

/-- Each format has its kind, and the sets stay. -/
noncomputable def scheme : Scheme String where
  kind := Function.extend PresenceKey.text kind fun _ => .string
  lasting k := ∃ key : PresenceKey, key.text = k ∧ kind key = .set

theorem scheme_kind (key : PresenceKey) : scheme.kind key.text = kind key := by
  change Function.extend PresenceKey.text kind (fun _ => .string) key.text = kind key
  rw [PresenceKey.text_injective.extend_apply]

theorem scheme_lasting (key : PresenceKey) :
    scheme.lasting key.text ↔ kind key = .set := by
  constructor
  · rintro ⟨key', htext, hkey⟩
    rw [← PresenceKey.text_injective htext, hkey]
  · exact fun h => ⟨key, rfl, h⟩

theorem not_lasting (key : PresenceKey) (h : kind key ≠ .set) : ¬ scheme.lasting key.text :=
  mt (scheme_lasting key).mp h

theorem allows_set (key : PresenceKey) (h : kind key = .string) (value : String) {ttl : Int}
    (hpos : 0 < ttl) : scheme.Allows (.set key.text value ttl) :=
  ⟨(scheme_kind key).trans h, not_lasting key (by rw [h]; decide), hpos⟩

theorem allows_hset (key : PresenceKey) (h : kind key = .hash) (fields : List (String × String)) :
    scheme.Allows (.hset key.text fields) := (scheme_kind key).trans h

theorem allows_sadd (key : PresenceKey) (h : kind key = .set) (member : String) :
    scheme.Allows (.sadd key.text member) := (scheme_kind key).trans h

theorem allows_srem (key : PresenceKey) (h : kind key = .set) (member : String) :
    scheme.Allows (.srem key.text member) := (scheme_kind key).trans h

/-- The keyspace counts the sessions that the in-process store has. -/
structure Mirrors (k : Keyspace.Store String) (p : Presence) : Prop where
  fits : scheme.Fits k
  listeners : ∀ roomID,
    Keyspace.members k (roomListenersKey roomID) = Presence.members p.listeners roomID
  participants : ∀ roomID,
    Keyspace.members k (roomParticipantsKey roomID) = Presence.members p.participants roomID

variable {s} {k : Keyspace.Store String} {p p' : Presence} {cs : List (Command String)}

/-- A transaction of the scheme that changes the two sets as the in-process store does. -/
theorem mirrors_transact (hm : Mirrors k p) (hcs : ∀ c ∈ cs, scheme.Allows c)
    (hlisteners : ∀ roomID, cs.foldl (Command.change (roomListenersKey roomID))
      (Presence.members p.listeners roomID) = Presence.members p'.listeners roomID)
    (hparticipants : ∀ roomID, cs.foldl (Command.change (roomParticipantsKey roomID))
      (Presence.members p.participants roomID) = Presence.members p'.participants roomID)
    (now : Int) :
    (Keyspace.transact now cs k).1 = .ok () ∧ Mirrors (Keyspace.transact now cs k).2 p' := by
  obtain ⟨hok, hfits, hmembers⟩ := Keyspace.transact_agrees hm.fits hcs now
  refine ⟨hok, hfits, fun roomID => ?_, fun roomID => ?_⟩
  · have hkey : scheme.lasting (roomListenersKey roomID) :=
      (scheme_lasting (.roomListeners roomID)).mpr rfl
    rw [hmembers _ hkey, hm.listeners, hlisteners]
  · have hkey : scheme.lasting (roomParticipantsKey roomID) :=
      (scheme_lasting (.roomParticipants roomID)).mpr rfl
    rw [hmembers _ hkey, hm.participants, hparticipants]

/-! ## Counting alike -/

theorem roomListenersKey_inj {roomID roomID' : String} :
    roomListenersKey roomID = roomListenersKey roomID' ↔ roomID = roomID' := by
  refine ⟨fun h => ?_, fun h => h ▸ rfl⟩
  exact PresenceKey.roomListeners.inj (PresenceKey.text_injective h)

theorem roomParticipantsKey_inj {roomID roomID' : String} :
    roomParticipantsKey roomID = roomParticipantsKey roomID' ↔ roomID = roomID' := by
  refine ⟨fun h => ?_, fun h => h ▸ rfl⟩
  exact PresenceKey.roomParticipants.inj (PresenceKey.text_injective h)

theorem roomListenersKey_ne (roomID roomID' : String) :
    roomListenersKey roomID ≠ roomParticipantsKey roomID' := by
  intro h
  have hkey : PresenceKey.roomListeners roomID = .roomParticipants roomID' :=
    PresenceKey.text_injective h
  cases hkey

/-- The time to live a call is given. -/
def ttl : PresenceCall → Option Duration
  | .markListenerActive _ _ _ ttl | .touchListener _ _ ttl => some ttl
  | .markParticipantActive _ _ _ ttl => some ttl
  | _ => none

theorem markListenerActive_allowed (hs : ∀ d, 0 < d → 0 < s.setTTL d)
    (lastSeen roomID sessionID userID : String) {ttl : Duration} (hpos : 0 < ttl) :
    ∀ c ∈ markListenerActive s lastSeen roomID sessionID userID ttl, scheme.Allows c := by
  simp only [markListenerActive, List.forall_mem_cons]
  exact ⟨allows_set (.listenerLastSeen sessionID) rfl _ (hs ttl hpos),
    allows_hset (.listenerState sessionID) rfl _,
    not_lasting (.listenerState sessionID) (by simp [kind]),
    allows_sadd (.roomListeners roomID) rfl _, by simp⟩

theorem touchListener_allowed (hs : ∀ d, 0 < d → 0 < s.setTTL d)
    (lastSeen roomID sessionID : String) {ttl : Duration} (hpos : 0 < ttl) :
    ∀ c ∈ touchListener s lastSeen roomID sessionID ttl, scheme.Allows c := by
  simp only [touchListener, List.forall_mem_cons]
  exact ⟨allows_set (.listenerLastSeen sessionID) rfl _ (hs ttl hpos),
    not_lasting (.listenerState sessionID) (by simp [kind]),
    allows_sadd (.roomListeners roomID) rfl _, by simp⟩

theorem markListenerInactive_allowed (roomID sessionID : String) :
    ∀ c ∈ markListenerInactive roomID sessionID, scheme.Allows c := by
  simp only [markListenerInactive, List.forall_mem_cons, Scheme.Allows]
  exact ⟨⟨not_lasting (.listenerLastSeen sessionID) (by simp [kind]),
    not_lasting (.listenerState sessionID) (by simp [kind]), by simp⟩,
    allows_srem (.roomListeners roomID) rfl sessionID, by simp⟩

theorem markParticipantActive_allowed (roomID sessionID userID : String) (ttl : Duration) :
    ∀ c ∈ markParticipantActive s roomID sessionID userID ttl, scheme.Allows c := by
  simp only [markParticipantActive, List.forall_mem_cons]
  exact ⟨allows_hset (.participantState sessionID) rfl _,
    not_lasting (.participantState sessionID) (by simp [kind]),
    allows_sadd (.roomParticipants roomID) rfl _, by simp⟩

theorem markParticipantInactive_allowed (roomID sessionID : String) :
    ∀ c ∈ markParticipantInactive roomID sessionID, scheme.Allows c := by
  simp only [markParticipantInactive, List.forall_mem_cons, Scheme.Allows]
  exact ⟨⟨not_lasting (.participantState sessionID) (by simp [kind]), by simp⟩,
    allows_srem (.roomParticipants roomID) rfl sessionID, by simp⟩

/-- **One call** is answered alike, and the counted sets stay equal. -/
theorem step_alike (hs : ∀ d, 0 < d → 0 < s.setTTL d) (hm : Mirrors k p) (now : Int)
    (lastSeen : String) (c : PresenceCall) (hc : ∀ d ∈ ttl c, 0 < d) :
    (step s now lastSeen c k).1 = .ok (Presence.step c p).1 ∧
      Mirrors (step s now lastSeen c k).2 (Presence.step c p).2 := by
  have hne := fun roomID roomID' => (roomListenersKey_ne roomID roomID').symm
  cases c with
  | markListenerActive roomID sessionID userID ttl =>
    refine mirrors_transact hm (markListenerActive_allowed hs lastSeen roomID sessionID userID
      (hc ttl rfl)) (fun r => ?_) (fun r => ?_) now
    · simp [markListenerActive, Command.change, roomListenersKey_inj, Presence.step,
        Presence.members_mark]
    · simp [markListenerActive, Command.change, hne, Presence.step]
  | touchListener roomID sessionID ttl =>
    refine mirrors_transact hm (touchListener_allowed hs lastSeen roomID sessionID (hc ttl rfl))
      (fun r => ?_) (fun r => ?_) now
    · simp [touchListener, Command.change, roomListenersKey_inj, Presence.step,
        Presence.members_mark]
    · simp [touchListener, Command.change, hne, Presence.step]
  | markListenerInactive roomID sessionID =>
    refine mirrors_transact hm (markListenerInactive_allowed roomID sessionID)
      (fun r => ?_) (fun r => ?_) now
    · simp [markListenerInactive, Command.change, roomListenersKey_inj, Presence.step,
        Presence.members_unmark]
    · simp [markListenerInactive, Command.change, hne, Presence.step]
  | activeListenerCount roomID =>
    refine ⟨?_, hm⟩
    have hcount : Keyspace.scard now (roomListenersKey roomID) k =
        .ok (Keyspace.members k (roomListenersKey roomID)).card :=
      Keyspace.scard_agrees hm.fits (scheme_kind (.roomListeners roomID))
        ((scheme_lasting (.roomListeners roomID)).mpr rfl) now
    rw [hm.listeners] at hcount
    exact hcount
  | markParticipantActive roomID sessionID userID ttl =>
    refine mirrors_transact hm (markParticipantActive_allowed roomID sessionID userID ttl)
      (fun r => ?_) (fun r => ?_) now
    · simp [markParticipantActive, Command.change, roomListenersKey_ne, Presence.step]
    · simp [markParticipantActive, Command.change, roomParticipantsKey_inj, Presence.step,
        Presence.members_mark]
  | markParticipantInactive roomID sessionID =>
    refine mirrors_transact hm (markParticipantInactive_allowed roomID sessionID)
      (fun r => ?_) (fun r => ?_) now
    · simp [markParticipantInactive, Command.change, roomListenersKey_ne, Presence.step]
    · simp [markParticipantInactive, Command.change, roomParticipantsKey_inj, Presence.step,
        Presence.members_unmark]
  | activeParticipantCount roomID =>
    refine ⟨?_, hm⟩
    have hcount : Keyspace.scard now (roomParticipantsKey roomID) k =
        .ok (Keyspace.members k (roomParticipantsKey roomID)).card :=
      Keyspace.scard_agrees hm.fits (scheme_kind (.roomParticipants roomID))
        ((scheme_lasting (.roomParticipants roomID)).mpr rfl) now
    rw [hm.participants] at hcount
    exact hcount

/-- A call with the time of the server and the clock of the service. -/
structure TimedCall where
  now : Int
  lastSeen : String
  call : PresenceCall

/-- The keyspace after the calls. -/
def afterCalls (s : PresenceStore) (calls : List TimedCall) : Keyspace.Store String :=
  calls.foldl (fun k t => (step s t.now t.lastSeen t.call k).2) Keyspace.empty

/-- The in-process store after the calls. -/
def presenceAfter (calls : List TimedCall) : Presence :=
  calls.foldl (fun p t => (Presence.step t.call p).2) Presence.empty

theorem mirrors_empty : Mirrors Keyspace.empty Presence.empty where
  fits := scheme.fits_empty
  listeners _ := rfl
  participants _ := rfl

/-- **After any calls** the counted sets are equal. -/
theorem mirrors_calls (hs : ∀ d, 0 < d → 0 < s.setTTL d) (calls : List TimedCall)
    (hc : ∀ t ∈ calls, ∀ d ∈ ttl t.call, 0 < d) :
    Mirrors (afterCalls s calls) (presenceAfter calls) := by
  induction calls using List.reverseRecOn with
  | nil => exact mirrors_empty
  | append_singleton calls t ih =>
    have hm := ih fun t' ht' => hc t' (List.mem_append_left _ ht')
    rw [afterCalls, presenceAfter, List.foldl_concat, List.foldl_concat]
    exact (step_alike hs hm t.now t.lastSeen t.call (hc t (by simp))).2

/-- **The two presence stores count alike**, for every room and at any time,
after any calls with positive times to live. -/
theorem presence_stores_alike (s : PresenceStore) (hs : ∀ d, 0 < d → 0 < s.setTTL d)
    (calls : List TimedCall) (hc : ∀ t ∈ calls, ∀ d ∈ ttl t.call, 0 < d) (now : Int)
    (lastSeen roomID : String) :
    (step s now lastSeen (.activeListenerCount roomID) (afterCalls s calls)).1 =
        .ok (Presence.step (.activeListenerCount roomID) (presenceAfter calls)).1 ∧
      (step s now lastSeen (.activeParticipantCount roomID) (afterCalls s calls)).1 =
        .ok (Presence.step (.activeParticipantCount roomID) (presenceAfter calls)).1 := by
  have hm := mirrors_calls hs calls hc
  exact ⟨(step_alike hs hm now lastSeen (.activeListenerCount roomID) (by simp [ttl])).1,
    (step_alike hs hm now lastSeen (.activeParticipantCount roomID) (by simp [ttl])).1⟩

/-- Milliseconds for `SET`, whole seconds for `EXPIRE`, one at least. -/
def roundingStore : PresenceStore :=
  ⟨fun d => max 1 (d / 1000000), fun d => 1000 * max 1 (d / second)⟩

/-- Two listeners join a room, one of them leaves. -/
def sampleCalls : List TimedCall :=
  [⟨0, "", .markListenerActive "room" "a" "user" (60 * second)⟩,
    ⟨10, "", .markListenerActive "room" "b" "user" (60 * second)⟩,
    ⟨20, "", .markListenerInactive "room" "a"⟩]

/-- Long after its keys have expired a listener is still counted, by both stores. -/
theorem presence_stores_alike_expired :
    (step roundingStore (3600 * 1000) "" (.activeListenerCount "room")
      (afterCalls roundingStore sampleCalls)).1 = .ok 1 := by
  have hs : ∀ d, 0 < d → 0 < roundingStore.setTTL d := fun d _ =>
    lt_of_lt_of_le Int.zero_lt_one (le_max_left _ _)
  have hc : ∀ t ∈ sampleCalls, ∀ d ∈ ttl t.call, 0 < d := by
    simp [sampleCalls, ttl, second]
  have hcount :
      (Presence.step (.activeListenerCount "room") (presenceAfter sampleCalls)).1 = 1 := by
    decide +kernel
  have halike := (presence_stores_alike roundingStore hs sampleCalls hc (3600 * 1000) "" "room").1
  rw [halike, hcount]

end Redis

end WaveCast
