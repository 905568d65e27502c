import TarishDaemon.Rust.Text

/-!
# The inbox

Where received files go, and the two checks a peer's file name passes on its way
there.  `safe_leaf` reduces a name to its last component, or refuses it;
`non_clobbering` finds a path that no file has yet.

`QsHost` keeps the paths it opened.  Its directory is part of the model: a path is
mapped to the bytes in it.  Opening, writing and removing can each fail, and where
they do is an argument.
-/

namespace Sharingd

open Rust

/-- `char::is_control`. -/
def isControl (c : Char) : Bool :=
  decide (c.toNat < 0x20 ∨ 0x7F ≤ c.toNat ∧ c.toNat ≤ 0x9F)

/-- `char::is_whitespace`. -/
def isWhitespace (c : Char) : Bool :=
  decide (0x09 ≤ c.toNat ∧ c.toNat ≤ 0x0D ∨ 0x2000 ≤ c.toNat ∧ c.toNat ≤ 0x200A ∨
    c.toNat ∈ [0x20, 0x85, 0xA0, 0x1680, 0x2028, 0x2029, 0x202F, 0x205F, 0x3000])

/-- The bidirectional and directional-format overrides. -/
def isOverride (c : Char) : Bool :=
  decide (0x202A ≤ c.toNat ∧ c.toNat ≤ 0x202E ∨ 0x2066 ≤ c.toNat ∧ c.toNat ≤ 0x2069 ∨
    c.toNat ∈ [0x200E, 0x200F, 0x061C])

/-- `str::trim`. -/
def trim (t : Text) : Text :=
  ((t.dropWhile isWhitespace).reverse.dropWhile isWhitespace).reverse

/-- Is this text safe to store, show and log as itself? -/
def displaySafe (t : Text) : Bool :=
  !t.any fun c => decide (c.toNat = 0) || isControl c || isOverride c

/-- The last component of a name that came off the wire. -/
def safeLeaf (entryName : Text) : Option Text :=
  let leaf := trim (entryName.reverse.takeWhile fun c => c ≠ '/' ∧ c ≠ '\\').reverse
  if leaf = [] ∨ leaf = ['.'] ∨ leaf = ['.', '.'] then none
  else if !displaySafe leaf then none
  else some leaf

/-- `rsplit_once('.')`. -/
def rsplitDot (t : Text) : Option (Text × Text) :=
  match t.reverse.dropWhile (· ≠ '.') with
  | [] => none
  | _ :: stem => some (stem.reverse, (t.reverse.takeWhile (· ≠ '.')).reverse)

/-- The stem and the extension, the dot with it.  A leading dot is a hidden file,
not an extension. -/
def splitExtension (leaf : Text) : Text × Text :=
  match rsplitDot leaf with
  | some (stem, ext) => if stem ≠ [] then (stem, '.' :: ext) else (leaf, [])
  | none => (leaf, [])

/-- The rounds of `non_clobbering`; `n` numbers the next candidate. -/
def nonClobberingLoop (taken : Text → Bool) (dir stem ext : Text) : Nat → Nat → Text → Text
  | 0, _, candidate => candidate
  | rounds + 1, n, candidate =>
      if taken candidate then
        nonClobberingLoop taken dir stem ext rounds (n + 1)
          (dir ++ '/' :: stem ++ " (".toList ++ Nat.toDigits 10 n ++ ")".toList ++ ext)
      else candidate

/-- A path that no file has yet, unless 9999 of them are taken. -/
def nonClobbering (taken : Text → Bool) (dir leaf : Text) : Text :=
  let (stem, ext) := splitExtension leaf
  nonClobberingLoop taken dir stem ext 9999 1 (dir ++ '/' :: leaf)

def inboxDir : Text := "/data/misc/tarish/inbox".toList

/-- The path of the file called `leaf` in the inbox. -/
def inboxPath (leaf : Text) : Text :=
  inboxDir ++ '/' :: leaf

theorem nonClobberingLoop_free {taken : Text → Bool} {dir stem ext candidate : Text}
    (free : taken candidate = false) (rounds n : Nat) :
    nonClobberingLoop taken dir stem ext rounds n candidate = candidate := by
  cases rounds with
  | zero => rfl
  | succ rounds => rw [nonClobberingLoop, if_neg (by simp [free])]

theorem nonClobbering_free {taken : Text → Bool} {leaf : Text}
    (free : taken (inboxPath leaf) = false) :
    nonClobbering taken inboxDir leaf = inboxPath leaf :=
  nonClobberingLoop_free free _ _

/-! ### Room for one more -/

theorem rsplitDot_append {t stem ext : Text} (h : rsplitDot t = some (stem, ext)) :
    stem ++ '.' :: ext = t := by
  unfold rsplitDot at h
  have hsplit := List.takeWhile_append_dropWhile (p := (· ≠ '.')) (l := t.reverse)
  split at h
  · cases h
  next dot rest hdrop =>
    obtain ⟨rfl, rfl⟩ := Prod.mk.inj (Option.some.inj h)
    have hdot : dot = '.' := by
      have hne : t.reverse.dropWhile (· ≠ '.') ≠ [] := by
        rw [hdrop]
        exact List.cons_ne_nil _ _
      have hhead := List.head_dropWhile_not (· ≠ '.') hne
      simp only [hdrop, List.head_cons] at hhead
      simpa using hhead
    rw [hdrop, hdot] at hsplit
    have hback := congrArg List.reverse hsplit
    rw [List.reverse_append, List.reverse_cons, List.reverse_reverse, List.append_assoc] at hback
    exact hback

theorem splitExtension_append (leaf : Text) :
    (splitExtension leaf).1 ++ (splitExtension leaf).2 = leaf := by
  unfold splitExtension
  split
  next stem ext h =>
    split
    · exact rsplitDot_append h
    · exact List.append_nil _
  · exact List.append_nil _

/-- The candidate with a number in it. -/
def numbered (dir stem ext : Text) (n : Nat) : Text :=
  dir ++ '/' :: stem ++ " (".toList ++ Nat.toDigits 10 n ++ ")".toList ++ ext

theorem numbered_injective (dir stem ext : Text) : Function.Injective (numbered dir stem ext) := by
  intro a b h
  have hdigits : Nat.toDigits 10 a = Nat.toDigits 10 b := by
    simpa [numbered] using h
  calc
    a = Nat.ofDigitChars 10 (Nat.toDigits 10 a) 0 := Nat.ofDigitChars_ten_toDigits.symm
    _ = Nat.ofDigitChars 10 (Nat.toDigits 10 b) 0 := by rw [hdigits]
    _ = b := Nat.ofDigitChars_ten_toDigits

/-- A path that is taken after all its rounds has been turned down every time. -/
theorem taken_of_nonClobberingLoop (taken : Text → Bool) {dir stem ext : Text} (rounds n : Nat)
    (candidate : Text)
    (h : taken (nonClobberingLoop taken dir stem ext rounds n candidate) = true) :
    taken candidate = true ∧
      ∀ k, n ≤ k → k < n + rounds → taken (numbered dir stem ext k) = true := by
  induction rounds generalizing n candidate with
  | zero => exact ⟨h, fun k _ _ => by omega⟩
  | succ rounds ih =>
      unfold nonClobberingLoop at h
      split at h
      next hhere =>
        obtain ⟨hnext, hlater⟩ := ih (n + 1) _ h
        refine ⟨hhere, fun k hlo hhi => ?_⟩
        by_cases hk : k = n
        · rw [hk]
          exact hnext
        · exact hlater k (by omega) (by omega)
      next hfree => exact absurd h hfree

/-- With fewer than ten thousand files in the directory one of the candidates is
free. -/
theorem nonClobbering_notMem {inbox : HashMap Text Bytes} (room : inbox.keys.length < 10000)
    (leaf : Text) : nonClobbering (fun path => decide (path ∈ inbox)) inboxDir leaf ∉ inbox := by
  intro hmem
  obtain ⟨hfirst, hlater⟩ := taken_of_nonClobberingLoop
    (fun path => decide (path ∈ inbox)) 9999 1 _ (decide_eq_true hmem)
  have hapart : ∀ n, inboxDir ++ '/' :: leaf ≠
      numbered inboxDir (splitExtension leaf).1 (splitExtension leaf).2 n := by
    intro n h
    have hlen := congrArg List.length h
    have hleaf := congrArg List.length (splitExtension_append leaf)
    simp only [numbered, List.length_append, List.length_cons] at hlen hleaf
    have hparen : " (".toList.length = 2 := rfl
    omega
  have hnodup : ((inboxDir ++ '/' :: leaf) :: (List.range' 1 9999).map
      (numbered inboxDir (splitExtension leaf).1 (splitExtension leaf).2)).Nodup := by
    rw [List.nodup_cons]
    refine ⟨?_, List.Nodup.map (numbered_injective _ _ _) List.nodup_range'⟩
    intro h
    obtain ⟨n, -, hn⟩ := List.mem_map.mp h
    exact hapart n hn.symm
  have hsub : ∀ path ∈ (inboxDir ++ '/' :: leaf) :: (List.range' 1 9999).map
      (numbered inboxDir (splitExtension leaf).1 (splitExtension leaf).2), path ∈ inbox.keys := by
    intro path hpath
    rcases List.mem_cons.mp hpath with rfl | hpath
    · exact AList.mem_keys.mp (of_decide_eq_true hfirst)
    · obtain ⟨n, hn, rfl⟩ := List.mem_map.mp hpath
      obtain ⟨hlo, hhi⟩ := List.mem_range'_1.mp hn
      exact AList.mem_keys.mp (of_decide_eq_true (hlater n hlo (by omega)))
  have hlen := (List.subperm_of_subset hnodup hsub).length_le
  rw [List.length_cons, List.length_map, List.length_range'] at hlen
  omega

/-- The longest file there can be: offsets into it are `i64`. -/
def maxFile : Nat := 2 ^ 63 - 1

structure QsHost where
  id : Int
  /-- The paths this connection opened. -/
  created : List Text := []
  inbox : HashMap Text Bytes := ∅
  deriving DecidableEq

inductive CreateError
  | refusedName (name : Text)
  | notOpened (path : Text)
  deriving DecidableEq, Repr

namespace QsHost

/-- `create`; `opens` is whether the system would open a new file at all. -/
def create (h : QsHost) (name : Text) (opens : Bool) : Except CreateError (QsHost × Text) :=
  match safeLeaf name with
  | none => .error (.refusedName name)
  | some leaf =>
      let dest := nonClobbering (fun path => decide (path ∈ h.inbox)) inboxDir leaf
      -- `create_new`: an existing file is an error
      if !opens || decide (dest ∈ h.inbox) then .error (.notOpened dest)
      else
        .ok ({ h with inbox := h.inbox.insert dest [], created := h.created ++ [dest] }, dest)

/-- `write_all(data)` on the writer open at `path`, and whether it succeeds;
`stops` is how many bytes the disk takes before it fails, if it does. -/
def write (h : QsHost) (path : Text) (data : Bytes) (stops : Option Nat) : QsHost × Bool :=
  let old := (h.inbox.lookup path).getD []
  let n := min data.length (min (stops.getD data.length) (maxFile - old.length))
  ({ h with inbox := h.inbox.insert path (old ++ data.take n) }, decide (n = data.length))

/-- Remove every file this connection opened; `stuck` are those that cannot be
removed. -/
def discard (h : QsHost) (stuck : List Text) : QsHost :=
  { h with
    created := []
    inbox := (h.created.filter (· ∉ stuck)).foldl (fun m path => m.erase path) h.inbox }

variable {h h' : QsHost} {name path : Text}

/-- A file is made where there was none, and nothing else changes. -/
theorem create_spec {opens : Bool} (hc : h.create name opens = .ok (h', path)) :
    path ∉ h.inbox ∧
      h' = { h with inbox := h.inbox.insert path [], created := h.created ++ [path] } := by
  unfold create at hc
  split at hc
  next => cases hc
  next leaf hleaf =>
      dsimp only at hc
      split at hc
      next => cases hc
      next hfree =>
          simp only [Bool.or_eq_true, Bool.not_eq_true', decide_eq_true_eq, not_or] at hfree
          cases hc
          exact ⟨hfree.2, rfl⟩

/-- A name that leaves something safe gets a file while the directory has room. -/
theorem create_ok (safe : safeLeaf name ≠ none) (room : h.inbox.keys.length < 10000) :
    ∃ h' path, h.create name true = .ok (h', path) := by
  unfold create
  cases hleaf : safeLeaf name with
  | none => exact absurd hleaf safe
  | some leaf =>
      dsimp only
      rw [if_neg (by simpa using nonClobbering_notMem room leaf)]
      exact ⟨_, _, rfl⟩

/-- The file gets the path that `non_clobbering` found for the safe leaf. -/
theorem create_dest {opens : Bool} (hc : h.create name opens = .ok (h', path)) :
    ∃ leaf, safeLeaf name = some leaf ∧
      path = nonClobbering (fun path => decide (path ∈ h.inbox)) inboxDir leaf := by
  unfold create at hc
  split at hc
  next => cases hc
  next leaf hleaf =>
      dsimp only at hc
      split at hc
      next => cases hc
      next =>
          cases hc
          exact ⟨leaf, hleaf, rfl⟩

/-- A name that is its own safe leaf, and free, is the name the file gets. -/
theorem create_path {opens : Bool} (hc : h.create name opens = .ok (h', path))
    (safe : safeLeaf name = some name) (free : inboxPath name ∉ h.inbox) :
    path = inboxPath name := by
  obtain ⟨leaf, hleaf, hpath⟩ := create_dest hc
  obtain rfl : name = leaf := Option.some.inj (safe.symm.trans hleaf)
  rw [hpath, nonClobbering_free (by simpa using free)]

theorem write_data (h : QsHost) (path : Text) (data : Bytes) (stops : Option Nat) :
    ∃ n, n ≤ data.length ∧ (h.write path data stops).1.inbox.lookup path =
        some ((h.inbox.lookup path).getD [] ++ data.take n) ∧
      ((h.write path data stops).2 = true → n = data.length) ∧
      (((h.inbox.lookup path).getD []).length ≤ maxFile →
        ((h.inbox.lookup path).getD []).length + n ≤ maxFile) := by
  refine ⟨_, Nat.min_le_left _ _, AList.lookup_insert _, ?_, by omega⟩
  intro ok
  simpa [write] using ok

theorem write_other (h : QsHost) {path other : Text} (data : Bytes) (stops : Option Nat)
    (ne : other ≠ path) :
    (h.write path data stops).1.inbox.lookup other = h.inbox.lookup other := by
  simp only [write, AList.lookup_insert_ne ne]

theorem mem_foldl_erase (paths : List Text) (m : HashMap Text Bytes) (path : Text) :
    path ∈ paths.foldl (fun m path => m.erase path) m ↔ path ∉ paths ∧ path ∈ m := by
  induction paths generalizing m with
  | nil => simp
  | cons p paths ih =>
      rw [List.foldl_cons, ih, AList.mem_erase, List.mem_cons]
      tauto

/-- A discard that removes what it has to leaves no file of this connection. -/
theorem discard_removes {stuck : List Text} (hmem : path ∈ h.created) (free : path ∉ stuck) :
    path ∉ (h.discard stuck).inbox := by
  intro hin
  have hin' := (mem_foldl_erase _ _ _).mp hin
  exact hin'.1 (List.mem_filter.mpr ⟨hmem, by simpa using free⟩)

end QsHost

example : safeLeaf "../../etc/ photo.jpg ".toList = some "photo.jpg".toList := by decide +kernel

example : splitExtension ".profile".toList = (".profile".toList, []) := by decide +kernel

end Sharingd
