import Mathlib.Data.List.TakeWhile
import TarishDaemon.Sharingd.Inbox
import TarishDaemon.Sharingd.PlistRound

/-!
# The offer and the prompt

A sender describes what it offers in a property list, and the receiver reads the
names out of it for the person to see.  A body that cannot be read gives a prompt
without a sender and without names.

Each file is eleven objects of the document and the offer itself is thirteen, so the
reader's limit of 4096 objects is reached by 372 files (`prompt_lists_iff`).
-/

namespace Sharingd

open Rust Plist

/-- One file to send: what can be read from its descriptor, and the name it should
arrive under. -/
structure Item where
  file : Bytes
  name : Text
  size : Nat
  deriving DecidableEq, Repr

/-- `{x:02X}`. -/
def hexDigits (x : UInt8) : Text :=
  [Nat.digitChar (x.toNat / 16), Nat.digitChar (x.toNat % 16)].map Char.toUpper

/-- A random identifier of the session; `filled` is what the random source gave. -/
def senderId (filled : Option Bytes) : Text :=
  match filled with
  | some b => b.flatMap hexDigits
  | none => "0000000000000000".toList

/-- The type a receiver groups an offer by. -/
def utiFor (name : Text) : Text :=
  let ext := ((rsplitDot name).map fun r => r.2.map Char.toLower).getD []
  if ext = "jpg".toList ∨ ext = "jpeg".toList then "public.jpeg".toList
  else if ext = "png".toList then "public.png".toList
  else if ext = "gif".toList then "com.compuserve.gif".toList
  else if ext = "heic".toList then "public.heic".toList
  else if ext = "heif".toList then "public.heif".toList
  else if ext = "webp".toList then "org.webmproject.webp".toList
  else if ext = "tiff".toList ∨ ext = "tif".toList then "public.tiff".toList
  else if ext = "mov".toList then "com.apple.quicktime-movie".toList
  else if ext = "mp4".toList ∨ ext = "m4v".toList then "public.mpeg-4".toList
  else if ext = "pdf".toList then "com.adobe.pdf".toList
  else if ext = "txt".toList then "public.plain-text".toList
  else if ext = "zip".toList then "public.zip-archive".toList
  else if ext = "mp3".toList then "public.mp3".toList
  else if ext = "m4a".toList then "com.apple.m4a-audio".toList
  else "public.data".toList

def askFile (i : Item) : Value :=
  .dict [("FileName".toList, .str i.name),
    ("FileType".toList, .str (utiFor i.name)),
    ("FileBomPath".toList, .str ('.' :: '/' :: i.name)),
    ("FileIsDirectory".toList, .bool false),
    ("ConvertMediaFormats".toList, .bool false)]

def askValue (items : List Item) (senderName senderModel : Text) (filled : Option Bytes) : Value :=
  .dict [("SenderComputerName".toList, .str senderName),
    ("SenderID".toList, .str (senderId filled)),
    ("SenderModelName".toList, .str senderModel),
    ("BundleID".toList, .str "com.apple.finder".toList),
    ("ConvertMediaFormats".toList, .bool false),
    ("Files".toList, .array (items.map askFile))]

def askBody (items : List Item) (senderName senderModel : Text) (filled : Option Bytes) : Bytes :=
  encode (askValue items senderName senderModel filled)

/-- What stands behind the last slash. -/
def lastComponent (n : Text) : Text :=
  (n.reverse.takeWhile (· ≠ '/')).reverse

/-- The name a file of the offer is shown under. -/
def offeredName (it : Val) : Text :=
  lastComponent ((((it.get "FileName".toList).bind Val.asStr).or
    ((it.get "FileBomPath".toList).bind Val.asStr)).getD [])

/-- The names that are shown; nothing if one of them is not safe to show. -/
def offeredNames : List Val → Option (List Text)
  | [] => some []
  | it :: items =>
      let leaf := offeredName it
      if leaf = [] then offeredNames items
      else if !displaySafe leaf then none
      else (offeredNames items).map (leaf :: ·)

/-- Who is offering, and what. -/
def describeOffer (body : Bytes) : Option (Text × List Text) :=
  match parse body with
  | none => some ([], [])
  | some v =>
      let sender := ((v.get "SenderComputerName".toList).bind Val.asStr).getD []
      let names :=
        match v.get "Files".toList with
        | some (.array items) => offeredNames items
        | _ => some []
      match names with
      | none => none
      | some names => if !displaySafe sender then none else some (sender, names)

/-! ## The size of an offer -/

theorem countAll_askFiles (items : List Item) :
    countAll (items.map askFile) = 11 * items.length := by
  induction items with
  | nil => rfl
  | cons i items ih =>
      rw [List.map_cons, countAll, ih, List.length_cons]
      simp only [askFile, count, countValues]
      omega

theorem count_askValue (items : List Item) (senderName senderModel : Text)
    (filled : Option Bytes) :
    count (askValue items senderName senderModel filled) = 13 + 11 * items.length := by
  simp only [askValue, count, countValues, countAll_askFiles]
  omega

theorem levelsAll_askFiles (items : List Item) : levelsAll (items.map askFile) ≤ 2 := by
  induction items with
  | nil => exact Nat.zero_le _
  | cons i items ih =>
      rw [List.map_cons, levelsAll]
      simp only [askFile, levels, levelsValues]
      omega

theorem levels_askValue (items : List Item) (senderName senderModel : Text)
    (filled : Option Bytes) :
    levels (askValue items senderName senderModel filled) ≤ maxDepth + 1 := by
  have hfiles := levelsAll_askFiles items
  simp only [askValue, levels, levelsValues, maxDepth]
  omega

/-! ## Texts that are read back whole -/

/-- What the marker of a text counts. -/
def written (t : Text) : Nat :=
  if isAscii t then (asBytes t).length else (encodeUtf16 t).length

/-- The text is not too long for its marker. -/
def Fits (t : Text) : Prop :=
  written t < 2 ^ 32

theorem readText_of_fits {t : Text} (h : Fits t) : readText t = t := by
  unfold Fits written at h
  unfold readText marked
  by_cases hascii : isAscii t = true
  · rw [if_pos hascii] at h ⊢
    rw [Nat.mod_eq_of_lt h, asBytes_ascii hascii, List.length_map, List.take_length]
  · rw [if_neg hascii] at h ⊢
    rw [Nat.mod_eq_of_lt h, List.take_length, fromUtf16Lossy_encode]

/-- A text that is too long is not read back, nor is the end of what is. -/
theorem fits_of_suffix {t : Text} (h : t <:+ readText t) : Fits t := by
  unfold Fits written
  unfold readText marked at h
  by_cases hascii : isAscii t = true
  · rw [if_pos hascii] at h ⊢
    have hlen := h.length_le
    rw [asBytes_ascii hascii, List.length_map, List.length_take] at hlen
    rw [asBytes_ascii hascii, List.length_map]
    omega
  · rw [if_neg hascii] at h ⊢
    obtain ⟨front, hfront⟩ := h
    have hunits := (fromUtf16Lossy_lengths
      ((encodeUtf16 t).take ((encodeUtf16 t).length % 2 ^ 32))
      fun u hu => encodeUtf16_lt t u (List.mem_of_mem_take hu)).1
    rw [← hfront, List.length_take] at hunits
    have hsum : (encodeUtf16 (front ++ t)).length =
        (encodeUtf16 front).length + (encodeUtf16 t).length := by
      simp only [encodeUtf16, List.flatMap_append, List.length_append]
    omega

theorem lastComponent_suffix (n : Text) : lastComponent n <:+ n := by
  have hprefix : n.reverse.takeWhile (· ≠ '/') <+: n.reverse := List.takeWhile_prefix _
  have hsuffix := List.reverse_suffix.mpr hprefix
  rwa [List.reverse_reverse] at hsuffix

theorem lastComponent_of_notMem {n : Text} (h : '/' ∉ n) : lastComponent n = n := by
  have hall : n.reverse.takeWhile (· ≠ '/') = n.reverse := by
    rw [List.takeWhile_eq_self_iff]
    intro c hc
    have hne : c ≠ '/' := fun heq => h (heq ▸ List.mem_reverse.mp hc)
    simpa using hne
  rw [lastComponent, hall, List.reverse_reverse]

/-! ## What the prompt shows -/

instance (t : Text) : Decidable (Fits t) :=
  inferInstanceAs (Decidable (written t < 2 ^ 32))

theorem get_cons_self (key : Text) (v : Val) (entries : List (Text × Val)) :
    (Val.dict ((key, v) :: entries)).get key = some v := by
  simp [Val.get]

theorem get_cons_ne {key other : Text} (h : other ≠ key) (v : Val)
    (entries : List (Text × Val)) :
    (Val.dict ((other, v) :: entries)).get key = (Val.dict entries).get key := by
  simp [Val.get, h]

theorem offeredName_askFile (i : Item) :
    offeredName (readBack (askFile i)) = lastComponent (readText i.name) := by
  have hkey := readText_of_fits (t := "FileName".toList) (by decide)
  simp only [offeredName, askFile, readBack, readEntries, hkey, get_cons_self, Option.bind_some,
    Val.asStr, Option.some_or, Option.getD_some]

theorem readAll_askFiles (items : List Item) :
    readAll (items.map askFile) = items.map fun i => readBack (askFile i) := by
  induction items with
  | nil => rfl
  | cons i items ih => rw [List.map_cons, readAll, ih, List.map_cons]

/-- What the two keys of an offer that is read give. -/
theorem get_askValue (items : List Item) (senderName senderModel : Text)
    (filled : Option Bytes) :
    (readBack (askValue items senderName senderModel filled)).get "SenderComputerName".toList =
        some (.str (readText senderName)) ∧
      (readBack (askValue items senderName senderModel filled)).get "Files".toList =
        some (.array (items.map fun i => readBack (askFile i))) := by
  have hname := readText_of_fits (t := "SenderComputerName".toList) (by decide)
  have hid := readText_of_fits (t := "SenderID".toList) (by decide)
  have hmodel := readText_of_fits (t := "SenderModelName".toList) (by decide)
  have hbundle := readText_of_fits (t := "BundleID".toList) (by decide)
  have hconvert := readText_of_fits (t := "ConvertMediaFormats".toList) (by decide)
  have hfiles := readText_of_fits (t := "Files".toList) (by decide)
  simp only [askValue, readBack, readEntries, hname, hid, hmodel, hbundle, hconvert, hfiles]
  constructor
  · rw [get_cons_self]
  · rw [get_cons_ne (by decide), get_cons_ne (by decide), get_cons_ne (by decide),
      get_cons_ne (by decide), get_cons_ne (by decide), get_cons_self, readAll_askFiles]

/-- The names that are shown are what is left of all of them. -/
theorem offeredNames_some {vals : List Val} {names : List Text}
    (h : offeredNames vals = some names) :
    names = (vals.map offeredName).filter (fun t => decide (t ≠ [])) := by
  induction vals generalizing names with
  | nil =>
      cases h
      rfl
  | cons it vals ih =>
      rw [offeredNames] at h
      by_cases hempty : offeredName it = []
      · rw [if_pos hempty] at h
        rw [List.map_cons, List.filter_cons_of_neg (by simp [hempty]), ih h]
      · rw [if_neg hempty] at h
        split at h
        · cases h
        obtain ⟨rest, hrest, rfl⟩ := Option.map_eq_some_iff.mp h
        rw [List.map_cons, List.filter_cons_of_pos (by simp [hempty]), ih hrest]

theorem offeredNames_safe {vals : List Val}
    (h : ∀ it ∈ vals, offeredName it ≠ [] ∧ displaySafe (offeredName it) = true) :
    offeredNames vals = some (vals.map offeredName) := by
  induction vals with
  | nil => rfl
  | cons it vals ih =>
      obtain ⟨hne, hsafe⟩ := h it (by simp)
      rw [offeredNames, if_neg hne, if_neg (by simp [hsafe]), ih fun v hv => h v (by simp [hv])]
      rfl

theorem offeredNames_shown {vals : List Val} {names : List Text}
    (h : offeredNames vals = some names) : ∀ n ∈ names, displaySafe n = true := by
  induction vals generalizing names with
  | nil =>
      cases h
      simp
  | cons it vals ih =>
      rw [offeredNames] at h
      split at h
      next => exact ih h
      next =>
        split at h
        next => cases h
        next hsafe =>
          obtain ⟨rest, hrest, rfl⟩ := Option.map_eq_some_iff.mp h
          intro n hn
          rcases List.mem_cons.mp hn with rfl | hn
          · simpa using hsafe
          · exact ih hrest n hn

/-- From 372 files on nothing is read, and the prompt says neither who nor what. -/
theorem prompt_empty {items : List Item} {senderName senderModel : Text} {filled : Option Bytes}
    (many : 371 < items.length)
    (hcount : count (askValue items senderName senderModel filled) < 2 ^ 64) :
    describeOffer (askBody items senderName senderModel filled) = some ([], []) := by
  have hobjects := count_askValue items senderName senderModel filled
  have hmax : maxElements = 4096 := rfl
  rw [describeOffer, askBody, parse_crowded (by omega) hcount]

/-- **The prompt lists every offered file exactly for up to 371 files**, and names
that a marker can count.  `memory` is what a `Vec` of the source can hold. -/
theorem prompt_lists_iff (items : List Item) (senderName senderModel : Text)
    (filled : Option Bytes)
    (names : ∀ i ∈ items, i.name ≠ [] ∧ '/' ∉ i.name ∧ displaySafe i.name = true)
    (sender : displaySafe senderName = true)
    (memory : (askBody items senderName senderModel filled).length < 2 ^ 63) :
    describeOffer (askBody items senderName senderModel filled) =
        some (senderName, items.map Item.name) ↔
      items.length ≤ 371 ∧ Fits senderName ∧ ∀ i ∈ items, Fits i.name := by
  have hcount := count_askValue items senderName senderModel filled
  have hmax : maxElements = 4096 := rfl
  by_cases hmany : 371 < items.length
  · -- the document is not read, and the prompt is empty
    have hless := count_le_length (askValue items senderName senderModel filled)
    unfold askBody at memory
    rw [prompt_empty hmany (by omega)]
    constructor
    · intro heq
      have hlen := congrArg (fun r => (r.map fun o => o.2.length).getD 0) heq
      simp only [Option.map_some, Option.getD_some, List.length_nil, List.length_map] at hlen
      omega
    · omega
  have hread := parse_encode (v := askValue items senderName senderModel filled) (by omega)
    (levels_askValue items senderName senderModel filled) memory
  obtain ⟨hsender, hfiles⟩ := get_askValue items senderName senderModel filled
  have hoffer : describeOffer (askBody items senderName senderModel filled) =
      match offeredNames (items.map fun i => readBack (askFile i)) with
      | none => none
      | some names =>
          if !displaySafe (readText senderName) then none
          else some (readText senderName, names) := by
    rw [describeOffer, askBody, hread]
    simp only [hsender, hfiles, Option.bind_some, Val.asStr, Option.getD_some]
  have hleaves : (items.map fun i => readBack (askFile i)).map offeredName =
      items.map fun i => lastComponent (readText i.name) := by
    rw [List.map_map]
    exact List.map_congr_left fun i _ => offeredName_askFile i
  rw [hoffer]
  constructor
  · intro heq
    cases hshown : offeredNames (items.map fun i => readBack (askFile i)) with
    | none =>
        rw [hshown] at heq
        cases heq
    | some shown =>
        rw [hshown] at heq
        dsimp only at heq
        split at heq
        · cases heq
        obtain ⟨hfrom, hnames⟩ := Prod.mk.inj (Option.some.inj heq)
        have hleft := offeredNames_some hshown
        rw [hleaves, hnames] at hleft
        -- as many names as files, so none was left out
        have hall : ∀ t ∈ items.map (fun i => lastComponent (readText i.name)),
            decide (t ≠ []) = true := by
          apply List.length_filter_eq_length_iff.mp
          rw [← hleft, List.length_map, List.length_map]
        rw [List.filter_eq_self.mpr hall] at hleft
        refine ⟨by omega, ?_, fun i hi => ?_⟩
        · have hself : senderName <:+ readText senderName := by simp [hfrom]
          exact fits_of_suffix hself
        · have hname : i.name = lastComponent (readText i.name) := List.map_inj_left.mp hleft i hi
          apply fits_of_suffix
          have hsuffix := lastComponent_suffix (readText i.name)
          rwa [← hname] at hsuffix
  · rintro ⟨-, hfits, hfit⟩
    have hname : ∀ i ∈ items, lastComponent (readText i.name) = i.name := by
      intro i hi
      rw [readText_of_fits (hfit i hi), lastComponent_of_notMem (names i hi).2.1]
    have hsafe : ∀ it ∈ items.map (fun i => readBack (askFile i)),
        offeredName it ≠ [] ∧ displaySafe (offeredName it) = true := by
      intro it hit
      obtain ⟨i, hi, rfl⟩ := List.mem_map.mp hit
      rw [offeredName_askFile, hname i hi]
      exact ⟨(names i hi).1, (names i hi).2.2⟩
    rw [offeredNames_safe hsafe, hleaves, List.map_congr_left hname, readText_of_fits hfits]
    dsimp only
    rw [if_neg (by simp [sender])]

/-- A photo and a text. -/
def somePhotos : List Item :=
  [⟨[1, 2, 3], "IMG_0001.jpg".toList, 3⟩, ⟨[], "пример.txt".toList, 0⟩]

theorem somePhotos_listed :
    describeOffer (askBody somePhotos "Mac".toList "tarish".toList none) =
      some ("Mac".toList, somePhotos.map Item.name) :=
  (prompt_lists_iff somePhotos "Mac".toList "tarish".toList none (by decide) (by decide)
    (by decide +kernel)).mpr ⟨by decide, by decide, by decide⟩

/-- 372 files with a name of one letter. -/
def manyFiles : List Item :=
  List.replicate 372 ⟨[], ['a'], 0⟩

/-- The prompt for 372 files shows no name and no sender. -/
theorem manyFiles_not_listed :
    ¬ ∀ (items : List Item) (senderName senderModel : Text) (filled : Option Bytes),
      items ≠ [] → items.length ≤ 1024 →
      (∀ i ∈ items, i.name ≠ [] ∧ '/' ∉ i.name ∧ displaySafe i.name = true) →
      displaySafe senderName = true →
      describeOffer (askBody items senderName senderModel filled) =
        some (senderName, items.map Item.name) := by
  intro claim
  have hlength : manyFiles.length = 372 := List.length_replicate
  have hlisted := claim manyFiles [] [] none (List.ne_nil_of_length_pos (by omega)) (by omega)
    (fun i hi => by
      obtain ⟨-, rfl⟩ := List.mem_replicate.mp hi
      decide)
    (by decide)
  have hcount := count_askValue manyFiles [] [] none
  rw [prompt_empty (by omega) (by omega)] at hlisted
  have hnames := congrArg List.length (Prod.mk.inj (Option.some.inj hlisted)).2
  rw [List.length_map, hlength] at hnames
  exact absurd hnames (by decide)

end Sharingd
