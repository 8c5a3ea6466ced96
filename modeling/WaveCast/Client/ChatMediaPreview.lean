import WaveCast.Client.JavaScript
import WaveCast.Scanner.Matches

/-!
# Links in chat messages

`components/room/chat-media-preview.tsx`. `ChatMessageText` cuts a message at
the URLs in it and at the punctuation behind them, `getMessageLinks` collects the
URLs for the previews. Nothing of the message is lost or added, and the
collected URLs are links of the message, each once, in order of appearance
(`chat_text_kept`).
-/

namespace WaveCast

namespace Client

/-- A JavaScript string: its code units. -/
abbrev Text := List UInt16

/-- The code units of a text of ASCII characters. -/
def units (s : String) : Text := s.toList.map fun c => UInt16.ofNat c.toNat

/-- `text.slice(start, stop)` for `0 ≤ start ≤ stop`. -/
def slice (text : Text) (start stop : Nat) : Text := (text.take stop).drop start

/-! ## The patterns -/

/-- What `URL_PATTERN` takes into a URL: anything but white space, angle
brackets, double quotes and backticks. -/
def isUrlUnit (c : UInt16) : Bool :=
  !isWhiteSpace c.toNat && c ≠ 0x3c && c ≠ 0x3e && c ≠ 0x22 && c ≠ 0x60

/-- What the flag `i` compares: ASCII letters without case. -/
def lower (c : UInt16) : UInt16 := if 0x41 ≤ c ∧ c ≤ 0x5a then c + 0x20 else c

/-- The length of `https?:\/\/` at the head of the text. -/
def schemeLength (text : Text) : Nat :=
  if (text.take 8).map lower = units "https://" then 8
  else if (text.take 7).map lower = units "http://" then 7
  else 0

/-- The length of the match of `URL_PATTERN` at the head of the text. -/
def urlLength (text : Text) : Nat :=
  let scheme := schemeLength text
  let tail := (text.drop scheme).takeWhile isUrlUnit
  if scheme = 0 ∨ tail = [] then 0 else scheme + tail.length

/-- `text.matchAll(URL_PATTERN)`. -/
def matchUrls (text : Text) : List (Scanner.Match UInt16) := Scanner.matchAll urlLength text

/-- What `TRAILING_URL_PUNCTUATION` takes off at the end. -/
def isUrlPunctuation (c : UInt16) : Bool := (units ".,!?;:)]").contains c

structure SanitizedUrl where
  url : Text
  trailing : Text

def sanitizeUrl (rawUrl : Text) : SanitizedUrl :=
  let trailing := (rawUrl.reverse.takeWhile isUrlPunctuation).reverse
  { url := if trailing = [] then rawUrl else slice rawUrl 0 (rawUrl.length - trailing.length)
    trailing }

/-! ## The links of a message -/

inductive LinkKind where
  | image
  | video
  | link
  deriving DecidableEq

structure MessageLink where
  url : Text
  host : Text
  title : Text
  kind : LinkKind

/-- What is read of a `URL`. -/
structure ParsedUrl where
  hostname : Text
  pathname : Text

/-- What the browser does; `none` where it throws. -/
structure Browser where
  newURL : Text → Option ParsedUrl
  decodeURIComponent : Text → Option Text
  toLowerCase : Text → Text

def imageExtensions : List Text :=
  ["avif", "gif", "jpeg", "jpg", "png", "svg", "webp"].map units

def videoExtensions : List Text :=
  ["m4v", "mov", "mp4", "mpeg", "mpg", "ogg", "ogv", "webm"].map units

/-- `text.split(separator)` for a separator of one unit. -/
def split (separator : UInt16) (text : Text) : List Text := text.splitOn separator

def getFileExtension (b : Browser) (pathname : Text) : Text :=
  let filename := (split 0x2f pathname).getLast?.getD []
  b.toLowerCase ((split 0x2e filename).getLast?.getD [])

def getLinkKind (b : Browser) (url : ParsedUrl) : LinkKind :=
  let extension := getFileExtension b url.pathname
  if extension ∈ imageExtensions then .image
  else if extension ∈ videoExtensions then .video
  else .link

/-- `hostname.replace(/^www\./, "")`. -/
def withoutWww (hostname : Text) : Text :=
  if hostname.take 4 = units "www." then hostname.drop 4 else hostname

def getLinkTitle (b : Browser) (url : ParsedUrl) : Text :=
  match ((split 0x2f url.pathname).filter (· ≠ [])).getLast? with
  | none => withoutWww url.hostname
  | some filename => (b.decodeURIComponent filename).getD filename

/-- The links so far, and the URLs that were seen. -/
structure LinkState where
  links : List MessageLink
  seen : List Text

/-- One round of the loop of `getMessageLinks`. -/
def LinkState.visit (b : Browser) (state : LinkState) (found : Scanner.Match UInt16) :
    LinkState :=
  let url := (sanitizeUrl found.text).url
  if url ∈ state.seen then state
  else
    match b.newURL url with
    | none => state
    | some parsed =>
      { links := state.links ++
          [{ url, host := withoutWww parsed.hostname, title := getLinkTitle b parsed
             kind := getLinkKind b parsed }]
        seen := url :: state.seen }

def getMessageLinks (b : Browser) (text : Text) : List MessageLink :=
  ((matchUrls text).foldl (LinkState.visit b) ⟨[], []⟩).links

/-! ## The message -/

/-- A part of a message as it is rendered. -/
inductive ChatPart where
  | text (content : Text)
  | link (href label : Text)
  deriving DecidableEq

/-- The text a part shows. -/
def ChatPart.content : ChatPart → Text
  | text content => content
  | link _ label => label

def ChatPart.target : ChatPart → Option Text
  | text _ => none
  | link href _ => some href

structure PartsState where
  parts : List ChatPart
  cursor : Nat

/-- One round of the loop of `ChatMessageText`. -/
def PartsState.visit (text : Text) (state : PartsState) (found : Scanner.Match UInt16) :
    PartsState :=
  let rawUrl := found.text
  let index := found.index
  let sanitized := sanitizeUrl rawUrl
  let before :=
    if index > state.cursor then [ChatPart.text (slice text state.cursor index)] else []
  let trailing := if sanitized.trailing ≠ [] then [ChatPart.text sanitized.trailing] else []
  { parts := state.parts ++ before ++ [.link sanitized.url sanitized.url] ++ trailing
    cursor := index + rawUrl.length }

/-- The `parts` of `ChatMessageText`. -/
def chatParts (text : Text) : List ChatPart :=
  let state := (matchUrls text).foldl (PartsState.visit text) ⟨[], 0⟩
  state.parts ++
    if state.cursor < text.length then [.text (slice text state.cursor text.length)] else []

/-- What `ChatMessageText` renders. -/
def chatMessageText (text : Text) : List ChatPart :=
  if chatParts text = [] then [.text text] else chatParts text

/-! ## Where links end -/

theorem sanitizeUrl_url (rawUrl : Text) :
    (sanitizeUrl rawUrl).url = (rawUrl.reverse.dropWhile isUrlPunctuation).reverse := by
  have hsplit : rawUrl = (rawUrl.reverse.dropWhile isUrlPunctuation).reverse ++
      (rawUrl.reverse.takeWhile isUrlPunctuation).reverse := by
    rw [← List.reverse_append, List.takeWhile_append_dropWhile, List.reverse_reverse]
  simp only [sanitizeUrl, slice, List.drop_zero]
  generalize (rawUrl.reverse.dropWhile isUrlPunctuation).reverse = front at *
  generalize (rawUrl.reverse.takeWhile isUrlPunctuation).reverse = trailing at *
  subst hsplit
  split
  · next hnone => rw [hnone, List.append_nil]
  · rw [List.length_append, Nat.add_sub_cancel, List.take_left]

theorem sanitizeUrl_append (rawUrl : Text) :
    (sanitizeUrl rawUrl).url ++ (sanitizeUrl rawUrl).trailing = rawUrl := by
  rw [sanitizeUrl_url, sanitizeUrl, ← List.reverse_append, List.takeWhile_append_dropWhile,
    List.reverse_reverse]

/-- No link ends with punctuation. -/
theorem sanitizeUrl_getLast {rawUrl : Text} {c : UInt16}
    (h : (sanitizeUrl rawUrl).url.getLast? = some c) : isUrlPunctuation c = false := by
  rw [sanitizeUrl_url, List.getLast?_reverse] at h
  have hhead := List.head?_dropWhile_not isUrlPunctuation rawUrl.reverse
  rw [h] at hhead
  exact hhead

/-! ## The parts of a message -/

theorem map_lower_length {text : Text} {n : Nat} {s : String}
    (h : (text.take n).map lower = units s) (hn : (units s).length = n) : n ≤ text.length := by
  have hlen := congrArg List.length h
  rw [List.length_map, List.length_take, hn] at hlen
  omega

theorem schemeLength_le (text : Text) : schemeLength text ≤ text.length := by
  rw [schemeLength]
  split
  · next h => exact map_lower_length h rfl
  · split
    · next h => exact map_lower_length h rfl
    · exact Nat.zero_le _

theorem urlLength_le (text : Text) : urlLength text ≤ text.length := by
  simp only [urlLength]
  split
  · exact Nat.zero_le _
  · have hscheme := schemeLength_le text
    have htail := (List.takeWhile_sublist isUrlUnit (l := text.drop (schemeLength text))).length_le
    rw [List.length_drop] at htail
    omega

/-- The text that parts show, one after another. -/
def contents (parts : List ChatPart) : Text := parts.flatMap ChatPart.content

@[simp] theorem contents_nil : contents [] = [] := rfl

@[simp] theorem contents_text (content : Text) : contents [.text content] = content :=
  List.append_nil content

@[simp] theorem contents_link (href label : Text) : contents [.link href label] = label :=
  List.append_nil label

theorem contents_append (parts parts' : List ChatPart) :
    contents (parts ++ parts') = contents parts ++ contents parts' :=
  List.flatMap_append

theorem slice_append (before middle after : Text) :
    slice (before ++ middle ++ after) before.length (before.length + middle.length) = middle := by
  rw [slice, ← List.length_append, List.take_left, List.drop_left]

/-- A round shows everything up to the end of the match, behind which it moves
the cursor. -/
theorem PartsState.visit_contents {before gap raw rest : Text} {state : PartsState}
    (hshown : contents state.parts = before) (hcursor : state.cursor = before.length) :
    contents (state.visit (before ++ (gap ++ raw ++ rest))
      ⟨before.length + gap.length, raw⟩).parts = before ++ gap ++ raw := by
  have hgap : contents (if before.length + gap.length > state.cursor then
      [ChatPart.text (slice (before ++ (gap ++ raw ++ rest)) state.cursor
        (before.length + gap.length))] else []) = gap := by
    rw [hcursor, List.append_assoc gap, ← List.append_assoc before, slice_append]
    split
    · exact contents_text gap
    · next hle => exact (List.eq_nil_of_length_eq_zero (by omega)).symm
  have htrailing : contents (if (sanitizeUrl raw).trailing ≠ [] then
      [ChatPart.text (sanitizeUrl raw).trailing] else []) = (sanitizeUrl raw).trailing := by
    split
    · exact contents_text _
    · next hnil => exact (not_not.mp hnil).symm
  simp only [visit, contents_append, contents_link, hshown, hgap, htrailing]
  rw [List.append_assoc, sanitizeUrl_append]

/-- The rounds over the leftmost matches show everything up to the cursor. -/
theorem contents_foldl {index : Nat} {rest : Text} {found : List (Scanner.Match UInt16)}
    (h : Scanner.Leftmost urlLength index rest found) :
    ∀ (before : Text) (state : PartsState), before.length = index →
      contents state.parts = before → state.cursor = before.length →
        ∃ shown after, before ++ rest = shown ++ after ∧
          contents (found.foldl (PartsState.visit (before ++ rest)) state).parts = shown ∧
          (found.foldl (PartsState.visit (before ++ rest)) state).cursor = shown.length := by
  induction h with
  | none => exact fun before state _ hshown hcursor => ⟨before, _, rfl, hshown, hcursor⟩
  | @next index gap raw rest found _ _ _ _ ih =>
    rintro before state rfl hshown hcursor
    have hvisit : contents (state.visit (before ++ (gap ++ raw ++ rest))
        ⟨before.length + gap.length, raw⟩).parts = before ++ gap ++ raw :=
      PartsState.visit_contents hshown hcursor
    have hfull : before ++ (gap ++ raw ++ rest) = before ++ gap ++ raw ++ rest := by
      simp only [List.append_assoc]
    rw [List.foldl_cons]
    rw [hfull] at hvisit ⊢
    refine ih (before ++ gap ++ raw) _ ?_ hvisit ?_
    · rw [List.length_append, List.length_append]
    · rw [PartsState.visit, List.length_append, List.length_append]

theorem contents_chatParts (text : Text) : contents (chatParts text) = text := by
  obtain ⟨shown, after, htext, hshown, hcursor⟩ :=
    contents_foldl (Scanner.matchAll_leftmost urlLength_le text) [] ⟨[], 0⟩ rfl rfl rfl
  rw [List.nil_append] at htext hshown hcursor
  rw [chatParts, contents_append, matchUrls, hshown, hcursor]
  split
  · rw [htext, slice, List.take_length, List.drop_left, contents_text]
  · next hle =>
    have hnil : after = [] := by
      have hlen := congrArg List.length htext
      rw [List.length_append] at hlen
      exact List.eq_nil_of_length_eq_zero (by omega)
    rw [htext, hnil, contents_nil]

/-- **A message is shown as it is**, part after part. -/
theorem contents_chatMessageText (text : Text) : contents (chatMessageText text) = text := by
  rw [chatMessageText]
  split
  · exact contents_text text
  · exact contents_chatParts text

/-- The targets of the links in a message. -/
def targets (parts : List ChatPart) : List Text := parts.filterMap ChatPart.target

theorem targets_append (parts parts' : List ChatPart) :
    targets (parts ++ parts') = targets parts ++ targets parts' :=
  List.filterMap_append

@[simp] theorem targets_nil : targets [] = [] := rfl

@[simp] theorem targets_text (content : Text) : targets [.text content] = [] := rfl

@[simp] theorem targets_link (href label : Text) : targets [.link href label] = [href] := rfl

theorem PartsState.visit_targets (text : Text) (state : PartsState)
    (found : Scanner.Match UInt16) :
    targets (state.visit text found).parts =
      targets state.parts ++ [(sanitizeUrl found.text).url] := by
  simp only [visit, targets_append]
  split <;> split <;> simp

/-- The links of a message are the matches without the punctuation behind them. -/
theorem targets_chatMessageText (text : Text) :
    targets (chatMessageText text) =
      (matchUrls text).map fun found => (sanitizeUrl found.text).url := by
  have hfold : ∀ (found : List (Scanner.Match UInt16)) (state : PartsState),
      targets (found.foldl (PartsState.visit text) state).parts =
        targets state.parts ++ found.map fun found => (sanitizeUrl found.text).url := by
    intro found
    induction found with
    | nil => exact fun _ => (List.append_nil _).symm
    | cons first found ih =>
      intro state
      rw [List.foldl_cons, ih, PartsState.visit_targets, List.map_cons, List.append_assoc,
        List.singleton_append]
  have hparts : targets (chatParts text) =
      (matchUrls text).map fun found => (sanitizeUrl found.text).url := by
    rw [chatParts, targets_append, hfold]
    split <;> simp
  rw [chatMessageText]
  split
  · next hnil =>
    rw [hnil] at hparts
    exact hparts
  · exact hparts

/-! ## The links of a message -/

def LinkState.urls (state : LinkState) : List Text := state.links.map (·.url)

/-- The links among the URLs so far: those that can be parsed, each once, in the
order in which they came first. -/
structure Collected (b : Browser) (visited : List Text) (state : LinkState) : Prop where
  among : ∀ url ∈ state.urls, url ∈ visited
  seen : ∀ url, url ∈ state.seen ↔ url ∈ state.urls
  parsed : ∀ url ∈ visited, (b.newURL url).isSome → url ∈ state.urls
  order : state.urls.Pairwise fun url url' => visited.idxOf url < visited.idxOf url'

theorem Collected.order_concat {b : Browser} {visited : List Text} {state : LinkState}
    (h : Collected b visited state) (url : Text) :
    state.urls.Pairwise fun u v => (visited ++ [url]).idxOf u < (visited ++ [url]).idxOf v := by
  refine h.order.imp_of_mem fun hu hv hlt => ?_
  rw [List.idxOf_append_of_mem (h.among _ hu), List.idxOf_append_of_mem (h.among _ hv)]
  exact hlt

/-- A URL that adds nothing was collected before, or cannot be parsed. -/
theorem Collected.skip {b : Browser} {visited : List Text} {state : LinkState}
    (h : Collected b visited state) {url : Text}
    (hskip : (b.newURL url).isSome → url ∈ state.urls) :
    Collected b (visited ++ [url]) state where
  among u hu := List.mem_append_left _ (h.among u hu)
  seen := h.seen
  parsed u hu hparsed := by
    rcases List.mem_append.mp hu with hu | hu
    · exact h.parsed u hu hparsed
    · rw [List.mem_singleton.mp hu] at hparsed ⊢
      exact hskip hparsed
  order := h.order_concat url

/-- A URL that was not visited before comes last. -/
theorem Collected.push {b : Browser} {visited : List Text} {state state' : LinkState}
    (h : Collected b visited state) {url : Text} (hurl : url ∉ visited)
    (hseen : state'.seen = url :: state.seen) (hurls : state'.urls = state.urls ++ [url]) :
    Collected b (visited ++ [url]) state' where
  among u hu := by
    rw [hurls, List.mem_append] at hu
    rw [List.mem_append]
    exact hu.imp_left (h.among u)
  seen u := by
    rw [hseen, hurls, List.mem_cons, List.mem_append, List.mem_singleton, h.seen, or_comm]
  parsed u hu hparsed := by
    rw [hurls, List.mem_append]
    exact (List.mem_append.mp hu).imp_left fun hu => h.parsed u hu hparsed
  order := by
    rw [hurls, List.pairwise_append]
    refine ⟨h.order_concat url, List.pairwise_singleton _ _, fun u hu v hv => ?_⟩
    rw [List.mem_singleton.mp hv, List.idxOf_append_of_mem (h.among u hu),
      List.idxOf_append_of_notMem hurl]
    exact Nat.lt_add_right _ (List.idxOf_lt_length_iff.mpr (h.among u hu))

theorem Collected.visit {b : Browser} {visited : List Text} {state : LinkState}
    (h : Collected b visited state) (found : Scanner.Match UInt16) :
    Collected b (visited ++ [(sanitizeUrl found.text).url]) (state.visit b found) := by
  simp only [LinkState.visit]
  generalize (sanitizeUrl found.text).url = url
  split
  · next hseen => exact h.skip fun _ => (h.seen url).mp hseen
  · next hnew =>
    split
    · next hthrows => exact h.skip (by simp [hthrows])
    · next parsed hparsed =>
      have hurl : url ∉ visited := fun hmem =>
        hnew ((h.seen url).mpr (h.parsed url hmem (by simp [hparsed])))
      exact h.push hurl rfl (by simp [LinkState.urls])

theorem collected_foldl (b : Browser) (found : List (Scanner.Match UInt16)) :
    Collected b (found.map fun found => (sanitizeUrl found.text).url)
      (found.foldl (LinkState.visit b) ⟨[], []⟩) := by
  induction found using List.reverseRecOn with
  | nil =>
    exact ⟨by simp [LinkState.urls], by simp [LinkState.urls], by simp, by simp [LinkState.urls]⟩
  | append_singleton found last ih =>
    rw [List.map_append, List.foldl_append]
    exact ih.visit last

/-- **Chat messages.** The parts of a message show the message; no link ends
with punctuation; and the URLs of the previews are links of the message, each
once, in the order in which they come first. -/
theorem chat_text_kept (b : Browser) (text : Text) :
    contents (chatMessageText text) = text ∧
    (∀ target ∈ targets (chatMessageText text), ∀ c, target.getLast? = some c →
      ¬isUrlPunctuation c) ∧
    ((getMessageLinks b text).map (·.url)).Nodup ∧
    (∀ url ∈ (getMessageLinks b text).map (·.url), url ∈ targets (chatMessageText text)) ∧
    ((getMessageLinks b text).map (·.url)).Pairwise fun url url' =>
      (targets (chatMessageText text)).idxOf url < (targets (chatMessageText text)).idxOf url' := by
  have hlinks := collected_foldl b (matchUrls text)
  rw [← targets_chatMessageText] at hlinks
  refine ⟨contents_chatMessageText text, fun target htarget c hlast => ?_, ?_, hlinks.among,
    hlinks.order⟩
  · rw [targets_chatMessageText] at htarget
    obtain ⟨found, -, rfl⟩ := List.mem_map.mp htarget
    simp [sanitizeUrl_getLast hlast]
  · exact hlinks.order.imp fun hlt heq => absurd hlt (by simp [heq])

example : chatMessageText (units "at (HTTPS://a.b/c.png).") =
    [.text (units "at ("), .link (units "HTTPS://a.b/c.png") (units "HTTPS://a.b/c.png"),
      .text (units ").")] := by
  decide +kernel

end Client

end WaveCast
