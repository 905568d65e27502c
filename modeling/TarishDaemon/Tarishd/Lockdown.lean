import TarishDaemon.Rust.Text

/-!
# Is a kill-switch in force

`lockdown_active` dumps the kernel's routing rules over netlink and looks for one
that prohibits.  It is meant to fail closed: it may say `false` only when a whole
dump came in, up to NLMSG_DONE, with no prohibiting rule in it.

`scan` is the loop over one datagram, with `bytes` what the datagram holds from
`off` on.  Over it stands what a dump is, independent of that loop: complete
messages, one after the other (`Holds`).  `failsClosed_iff` says on exactly which
input the probe keeps its word.
-/

namespace Tarishd

open Rust

def nlmsgError : Nat := 2

def nlmsgDone : Nat := 3

def frActProhibit : UInt8 := 8

/-- `size_of::<NlMsgHdr>()`. -/
def nlMsgHdrSize : Nat := 16

/-- The receive buffer of the probe. -/
def probeBuffer : Nat := 32768

def align4 (n : Nat) : Nat :=
  (n + 3) / 4 * 4

def byteAt (bytes : Bytes) (i : Nat) : Nat :=
  (bytes.getD i 0).toNat

/-- The `u32` at the front of a header; the platform is little-endian. -/
def msgLen (bytes : Bytes) : Nat :=
  byteAt bytes 0 + 256 * byteAt bytes 1 + 65536 * byteAt bytes 2 + 16777216 * byteAt bytes 3

def msgType (bytes : Bytes) : Nat :=
  byteAt bytes 4 + 256 * byteAt bytes 5

inductive ProbeError
  | socket
  | timeout
  | send
  | recv
  | netlink
  deriving DecidableEq, Repr

/-- The loop over one datagram; `none` when it runs off the end and the next
datagram is read. -/
def scan : Nat → Bytes → Option (Except ProbeError Bool)
  | 0, _ => none
  | fuel + 1, bytes =>
      if bytes.length < nlMsgHdrSize then none
      else if msgLen bytes < nlMsgHdrSize ∨ bytes.length < msgLen bytes then some (.ok false)
      else if msgType bytes = nlmsgDone then some (.ok false)
      else if msgType bytes = nlmsgError then some (.error .netlink)
      -- byte 7 of the payload, wherever the message itself ends
      else if bytes[nlMsgHdrSize + 7]? = some frActProhibit then some (.ok true)
      else scan fuel (bytes.drop (align4 (msgLen bytes)))

/-- What one `recv` returns. -/
inductive Recv
  | failed
  | datagram (bytes : Bytes)
  deriving DecidableEq, Repr

/-- What `recv` puts in the buffer of a datagram; the rest is cut off. -/
def received (bytes : Bytes) : Bytes :=
  bytes.take probeBuffer

/-- The receive loop; `none` while it still waits for a datagram. -/
def recvLoop : List Recv → Option (Except ProbeError Bool)
  | [] => none
  | .failed :: _ => some (.error .recv)
  | .datagram bytes :: rest =>
      match scan (received bytes).length (received bytes) with
      | some result => some result
      | none => recvLoop rest

/-- What a probe meets: whether the socket, its timeout and the request came
through, and what its receives return. -/
structure Probe where
  socket : Bool
  timeoutSet : Bool
  sent : Bool
  recvs : List Recv

def Probe.setUp (env : Probe) : Bool :=
  env.socket && env.timeoutSet && env.sent

def probeProhibitRule (env : Probe) : Option (Except ProbeError Bool) :=
  if !env.socket then some (.error .socket)
  else if !env.timeoutSet then some (.error .timeout)
  else if !env.sent then some (.error .send)
  else recvLoop env.recvs

/-- `lockdown_active`: an error is taken for a kill-switch. -/
def lockdownActive (env : Probe) : Option Bool :=
  (probeProhibitRule env).map fun
    | .ok found => found
    | .error _ => true

/-! ## What a dump is -/

/-- A complete netlink message: it has a header, and the header declares its
length. -/
structure Message where
  raw : Bytes
  headed : nlMsgHdrSize ≤ raw.length
  declared : msgLen raw = raw.length

/-- The action of a rule, if it stands within the message. -/
def Message.prohibits (m : Message) : Prop :=
  m.raw[nlMsgHdrSize + 7]? = some frActProhibit

/-- A message that leaves the question open. -/
structure Message.Harmless (m : Message) : Prop where
  notDone : msgType m.raw ≠ nlmsgDone
  notError : msgType m.raw ≠ nlmsgError
  allows : ¬ m.prohibits

/-- `Holds bytes ms rest`: the bytes are the messages `ms`, each starting at a
multiple of four, and then `rest`. -/
inductive Holds : Bytes → List Message → Bytes → Prop
  | nil (rest : Bytes) : Holds rest [] rest
  | cons (m : Message) {tail rest : Bytes} {ms : List Message}
      (more : Holds (tail.drop (align4 m.raw.length - m.raw.length)) ms rest) :
      Holds (m.raw ++ tail) (m :: ms) rest

/-- A datagram of harmless messages and nothing else. -/
def OnlyHarmless (bytes : Bytes) : Prop :=
  ∃ ms, Holds bytes ms [] ∧ ∀ m ∈ ms, m.Harmless

/-- A datagram in which such messages lead up to NLMSG_DONE. -/
def EndsDump (bytes : Bytes) : Prop :=
  ∃ ms done rest, Holds bytes (ms ++ [done]) rest ∧ (∀ m ∈ ms, m.Harmless) ∧
    msgType done.raw = nlmsgDone

/-- What comes in begins with a whole dump that has no prohibiting rule in it. -/
def CleanDump (recvs : List Recv) : Prop :=
  ∃ (front : List Bytes) (last : Bytes) (rest : List Recv),
    recvs = front.map .datagram ++ Recv.datagram last :: rest ∧
    (∀ d ∈ front, OnlyHarmless (received d)) ∧ EndsDump (received last)

/-- The probe says `false` only after a clean dump, and it comes back from every
error. -/
def FailsClosed (env : Probe) : Prop :=
  (lockdownActive env = some false → env.setUp = true ∧ CleanDump env.recvs) ∧
  (lockdownActive env = none → env.setUp = true ∧ .failed ∉ env.recvs)

/-! ## What stands in the input -/

/-- What the probe comes upon, in the order of the bytes. -/
inductive Item
  /-- A message that decides nothing. -/
  | plain
  /-- A message with FR_ACT_PROHIBIT where the action of a rule stands. -/
  | prohibit
  | done
  | error
  /-- A header whose length is shorter than a header or runs past the datagram. -/
  | badLength
  /-- Bytes at the end of a datagram that are too few for a header. -/
  | fragment
  /-- A receive that failed. -/
  | failed
  deriving DecidableEq, Repr

/-- The items after which the probe reads no further. -/
def Item.decides : Item → Bool
  | .plain | .fragment => false
  | .prohibit | .done | .error | .badLength | .failed => true

/-- The item at a complete message. -/
def itemOf (bytes : Bytes) : Item :=
  if msgType bytes = nlmsgDone then .done
  else if msgType bytes = nlmsgError then .error
  else if bytes[nlMsgHdrSize + 7]? = some frActProhibit then .prohibit
  else .plain

theorem le_align4 (n : Nat) : n ≤ align4 n := by
  unfold align4
  omega

/-- The items of one datagram. -/
def items (bytes : Bytes) : List Item :=
  if bytes = [] then []
  else if bytes.length < nlMsgHdrSize then [.fragment]
  else if msgLen bytes < nlMsgHdrSize ∨ bytes.length < msgLen bytes then [.badLength]
  else itemOf bytes :: items (bytes.drop (align4 (msgLen bytes)))
termination_by bytes.length
decreasing_by
  rename_i _ hlong hlen
  have hpad := le_align4 (msgLen bytes)
  simp only [nlMsgHdrSize] at hlong hlen
  rw [List.length_drop]
  omega

def Recv.items : Recv → List Item
  | .failed => [.failed]
  | .datagram bytes => Tarishd.items (received bytes)

/-- The items of all that the probe may receive. -/
def Probe.items (env : Probe) : List Item :=
  env.recvs.flatMap Recv.items

/-- What the items decide: the first that does. -/
def verdict : List Item → Option (Except ProbeError Bool)
  | [] => none
  | .plain :: rest | .fragment :: rest => verdict rest
  | .prohibit :: _ => some (.ok true)
  | .done :: _ | .badLength :: _ => some (.ok false)
  | .error :: _ => some (.error .netlink)
  | .failed :: _ => some (.error .recv)

theorem items_nil : items [] = [] := by
  rw [items]
  rfl

theorem items_cons {bytes : Bytes} (hlong : nlMsgHdrSize ≤ bytes.length)
    (hlen : nlMsgHdrSize ≤ msgLen bytes) (hfits : msgLen bytes ≤ bytes.length) :
    items bytes = itemOf bytes :: items (bytes.drop (align4 (msgLen bytes))) := by
  have hne : bytes ≠ [] := by
    intro h
    rw [h] at hlong
    exact absurd hlong (by decide)
  rw [items, if_neg hne, if_neg (by omega), if_neg (by omega)]

/-- The loop over a datagram finds what its items decide. -/
theorem scan_eq_verdict (fuel : Nat) (bytes : Bytes) (hfuel : bytes.length ≤ fuel) :
    scan fuel bytes = verdict (items bytes) := by
  induction fuel generalizing bytes with
  | zero =>
      have hnil : bytes = [] := List.eq_nil_of_length_eq_zero (by omega)
      rw [hnil, items_nil]
      rfl
  | succ fuel ih =>
      by_cases hshort : bytes.length < nlMsgHdrSize
      · rw [scan, if_pos hshort, items]
        by_cases hnil : bytes = []
        · rw [if_pos hnil]
          rfl
        · rw [if_neg hnil, if_pos hshort]
          rfl
      · by_cases hbad : msgLen bytes < nlMsgHdrSize ∨ bytes.length < msgLen bytes
        · have hne : bytes ≠ [] := fun h => hshort (by rw [h]; decide)
          rw [scan, if_neg hshort, if_pos hbad, items, if_neg hne, if_neg hshort, if_pos hbad]
          rfl
        · have hpad := le_align4 (msgLen bytes)
          have hrest := ih (bytes.drop (align4 (msgLen bytes))) (by
            rw [List.length_drop]
            simp only [nlMsgHdrSize] at hshort hbad
            omega)
          rw [items_cons (by omega) (by omega) (by omega), scan, if_neg hshort, if_neg hbad,
            itemOf]
          split
          · rfl
          · split
            · rfl
            · split
              · rfl
              · exact hrest

theorem verdict_append (xs ys : List Item) :
    verdict (xs ++ ys) = (verdict xs).or (verdict ys) := by
  induction xs with
  | nil => rfl
  | cons x xs ih =>
      cases x with
      | plain => exact ih
      | fragment => exact ih
      | prohibit => rfl
      | done => rfl
      | error => rfl
      | badLength => rfl
      | failed => rfl

theorem recvLoop_eq_verdict (recvs : List Recv) :
    recvLoop recvs = verdict (recvs.flatMap Recv.items) := by
  induction recvs with
  | nil => rfl
  | cons r recvs ih =>
      rw [List.flatMap_cons, verdict_append]
      cases r with
      | failed => rfl
      | datagram bytes =>
          have hscan := scan_eq_verdict _ (received bytes) (Nat.le_refl _)
          simp only [recvLoop, Recv.items]
          rw [hscan]
          cases verdict (items (received bytes)) with
          | none => exact ih
          | some result => rfl

theorem probeProhibitRule_of_setUp {env : Probe} (h : env.setUp = true) :
    probeProhibitRule env = verdict env.items := by
  simp only [Probe.setUp, Bool.and_eq_true] at h
  obtain ⟨⟨hsocket, htimeout⟩, hsent⟩ := h
  simp [probeProhibitRule, hsocket, htimeout, hsent, recvLoop_eq_verdict, Probe.items]

/-- A probe that could not be set up answers `true`. -/
theorem lockdownActive_of_not_setUp {env : Probe} (h : env.setUp = false) :
    lockdownActive env = some true := by
  unfold lockdownActive probeProhibitRule
  cases hsocket : env.socket with
  | false => rfl
  | true =>
      cases htimeout : env.timeoutSet with
      | false => rfl
      | true =>
          cases hsent : env.sent with
          | false => rfl
          | true => simp [Probe.setUp, hsocket, htimeout, hsent] at h

/-- The first item that decides, and what it decides. -/
theorem verdict_of_first {before after : List Item} {item : Item}
    (hbefore : ∀ i ∈ before, i.decides = false) (hitem : item.decides = true) :
    verdict (before ++ item :: after) = verdict [item] := by
  induction before with
  | nil => cases item <;> first | rfl | exact absurd hitem (by decide)
  | cons b before ih =>
      have hb := hbefore b (by simp)
      have hrest := ih fun i hi => hbefore i (by simp [hi])
      cases b <;> first | exact hrest | exact absurd hb (by decide)

theorem exists_first_of_verdict {all : List Item} {result : Except ProbeError Bool}
    (h : verdict all = some result) :
    ∃ before item after, all = before ++ item :: after ∧
      (∀ i ∈ before, i.decides = false) ∧ item.decides = true := by
  induction all with
  | nil => exact absurd h (by simp [verdict])
  | cons x all ih =>
      cases hx : x.decides with
      | true => exact ⟨[], x, all, rfl, by simp, hx⟩
      | false =>
          have htail : verdict all = some result := by
            cases x <;> first | exact h | exact absurd hx (by decide)
          obtain ⟨before, item, after, rfl, hbefore, hitem⟩ := ih htail
          refine ⟨x :: before, item, after, rfl, ?_, hitem⟩
          intro i hi
          rcases List.mem_cons.mp hi with rfl | hi
          · exact hx
          · exact hbefore i hi

theorem decides_of_verdict_none {all : List Item} (h : verdict all = none) :
    ∀ i ∈ all, i.decides = false := by
  induction all with
  | nil => simp
  | cons x all ih =>
      intro i hi
      have hhead : x.decides = false ∧ verdict all = none := by
        cases x <;> first | exact ⟨rfl, h⟩ | exact absurd h (by simp [verdict])
      rcases List.mem_cons.mp hi with rfl | hi
      · exact hhead.1
      · exact ih hhead.2 i hi

/-! ## Messages and items -/

theorem byteAt_append {front : Bytes} (tail : Bytes) {i : Nat} (h : i < front.length) :
    byteAt (front ++ tail) i = byteAt front i := by
  simp [byteAt, List.getD_eq_getElem?_getD, List.getElem?_append_left h]

theorem msgLen_append {front : Bytes} (tail : Bytes) (h : nlMsgHdrSize ≤ front.length) :
    msgLen (front ++ tail) = msgLen front := by
  simp only [nlMsgHdrSize] at h
  simp only [msgLen]
  rw [byteAt_append _ (by omega), byteAt_append _ (by omega), byteAt_append _ (by omega),
    byteAt_append _ (by omega)]

theorem msgType_append {front : Bytes} (tail : Bytes) (h : nlMsgHdrSize ≤ front.length) :
    msgType (front ++ tail) = msgType front := by
  simp only [nlMsgHdrSize] at h
  simp only [msgType]
  rw [byteAt_append _ (by omega), byteAt_append _ (by omega)]

/-- Where a message stands, its item does, and then those of what follows. -/
theorem items_message (m : Message) (tail : Bytes) :
    items (m.raw ++ tail) =
      itemOf (m.raw ++ tail) :: items (tail.drop (align4 m.raw.length - m.raw.length)) := by
  have hlen : msgLen (m.raw ++ tail) = m.raw.length := by
    rw [msgLen_append tail m.headed, m.declared]
  have hheaded := m.headed
  have hpad := le_align4 m.raw.length
  have hlength : (m.raw ++ tail).length = m.raw.length + tail.length := List.length_append
  rw [items_cons (by omega) (by omega) (by omega), hlen, List.drop_append,
    List.drop_of_length_le hpad, List.nil_append]

theorem itemOf_message (m : Message) (tail : Bytes) :
    (msgType m.raw = nlmsgDone → itemOf (m.raw ++ tail) = .done) ∧
    (m.Harmless → itemOf (m.raw ++ tail) = .plain ∨ itemOf (m.raw ++ tail) = .prohibit) := by
  rw [itemOf, msgType_append tail m.headed]
  constructor
  · intro hdone
    rw [if_pos hdone]
  · intro harmless
    rw [if_neg harmless.notDone, if_neg harmless.notError]
    split
    · exact Or.inr rfl
    · exact Or.inl rfl

/-- An item that is neither a bad length nor a fragment stands at a message. -/
theorem message_of_item {bytes : Bytes} {item : Item} {after : List Item}
    (h : items bytes = item :: after) (hbad : item ≠ .badLength) (hfrag : item ≠ .fragment) :
    ∃ (m : Message) (tail : Bytes), bytes = m.raw ++ tail ∧ itemOf bytes = item ∧
      items (tail.drop (align4 m.raw.length - m.raw.length)) = after := by
  have hitems := h
  rw [items] at h
  split at h
  · exact absurd h (by simp)
  · split at h
    · cases h
      exact absurd rfl hfrag
    · split at h
      · cases h
        exact absurd rfl hbad
      · next hlong hlen =>
          have hfits : msgLen bytes ≤ bytes.length := by omega
          have hraw : (bytes.take (msgLen bytes)).length = msgLen bytes :=
            List.length_take_of_le hfits
          have hheaded : nlMsgHdrSize ≤ (bytes.take (msgLen bytes)).length := by omega
          have hsplit := List.take_append_drop (msgLen bytes) bytes
          have hdeclared : msgLen (bytes.take (msgLen bytes)) =
              (bytes.take (msgLen bytes)).length := by
            rw [hraw, ← msgLen_append (bytes.drop (msgLen bytes)) hheaded, hsplit]
          let m : Message := ⟨bytes.take (msgLen bytes), hheaded, hdeclared⟩
          refine ⟨m, bytes.drop (msgLen bytes), hsplit.symm, (List.cons.inj h).1, ?_⟩
          have hmessage := items_message m (bytes.drop (msgLen bytes))
          rw [show m.raw ++ bytes.drop (msgLen bytes) = bytes from hsplit, hitems] at hmessage
          exact (List.cons.inj hmessage).2.symm

/-- A message whose item is plain is harmless, within its own length too. -/
theorem harmless_of_plain {m : Message} {tail : Bytes}
    (h : itemOf (m.raw ++ tail) = .plain) : m.Harmless := by
  rw [itemOf, msgType_append tail m.headed] at h
  split at h
  · exact absurd h (by decide)
  · next hdone =>
      split at h
      · exact absurd h (by decide)
      · next herror =>
          split at h
          · exact absurd h (by decide)
          · next hallows =>
              refine ⟨hdone, herror, fun hprohibits => hallows ?_⟩
              have hin : nlMsgHdrSize + 7 < m.raw.length := by
                by_contra hout
                rw [Message.prohibits, List.getElem?_eq_none (by omega)] at hprohibits
                exact absurd hprohibits (by simp)
              rw [List.getElem?_append_left hin]
              exact hprohibits

theorem Holds.append {bytes middle rest : Bytes} {ms ns : List Message}
    (h : Holds bytes ms middle) (h' : Holds middle ns rest) : Holds bytes (ms ++ ns) rest := by
  induction h with
  | nil rest => exact h'
  | cons m _ ih => exact Holds.cons m (ih h')

theorem Holds.split {bytes rest : Bytes} {ms ns : List Message}
    (h : Holds bytes (ms ++ ns) rest) : ∃ middle, Holds bytes ms middle ∧ Holds middle ns rest := by
  induction ms generalizing bytes with
  | nil => exact ⟨bytes, Holds.nil bytes, h⟩
  | cons m ms ih =>
      cases h with
      | cons m more =>
          obtain ⟨middle, front, last⟩ := ih more
          exact ⟨middle, Holds.cons m front, last⟩

/-- The items of harmless messages. -/
theorem Holds.items {bytes rest : Bytes} {ms : List Message} (h : Holds bytes ms rest)
    (harmless : ∀ m ∈ ms, m.Harmless) :
    ∃ before, items bytes = before ++ items rest ∧
      ∀ i ∈ before, i = .plain ∨ i = .prohibit := by
  induction h with
  | nil rest => exact ⟨[], rfl, by simp⟩
  | @cons m tail rest ms _ ih =>
      obtain ⟨before, heq, hbefore⟩ := ih fun m hm => harmless m (by simp [hm])
      refine ⟨itemOf (m.raw ++ tail) :: before, ?_, ?_⟩
      · rw [items_message, heq]
        rfl
      · intro i hi
        rcases List.mem_cons.mp hi with rfl | hi
        · exact (itemOf_message m tail).2 (harmless m (by simp))
        · exact hbefore i hi

/-- Plain items stand at harmless messages. -/
theorem holds_of_plain {bytes : Bytes} {before after : List Item}
    (h : items bytes = before ++ after) (hbefore : ∀ i ∈ before, i = .plain) :
    ∃ ms rest, Holds bytes ms rest ∧ (∀ m ∈ ms, m.Harmless) ∧ items rest = after := by
  induction before generalizing bytes with
  | nil => exact ⟨[], bytes, Holds.nil bytes, by simp, h⟩
  | cons item before ih =>
      have hplain : item = .plain := hbefore item (by simp)
      obtain ⟨m, tail, rfl, hitem, hrest⟩ :=
        message_of_item h (by rw [hplain]; decide) (by rw [hplain]; decide)
      obtain ⟨ms, rest, holds, harmless, hafter⟩ := ih hrest fun i hi => hbefore i (by simp [hi])
      refine ⟨m :: ms, rest, Holds.cons m holds, ?_, hafter⟩
      intro n hn
      rcases List.mem_cons.mp hn with rfl | hn
      · exact harmless_of_plain (hitem.trans hplain)
      · exact harmless n hn

theorem eq_nil_of_items {bytes : Bytes} (h : items bytes = []) : bytes = [] := by
  by_contra hne
  rw [items, if_neg hne] at h
  split at h
  · exact absurd h (by simp)
  · split at h
    · exact absurd h (by simp)
    · exact absurd h (by simp)

/-! ## Where it fails closed -/

theorem EndsDump.items {bytes : Bytes} (h : EndsDump bytes) :
    ∃ before after, Tarishd.items bytes = before ++ Item.done :: after ∧
      ∀ i ∈ before, i = .plain ∨ i = .prohibit := by
  obtain ⟨ms, done, rest, holds, harmless, hdone⟩ := h
  obtain ⟨middle, front, last⟩ := holds.split
  obtain ⟨before, heq, hbefore⟩ := front.items harmless
  cases last with
  | @cons _ tail _ _ more =>
      have hlast := items_message done tail
      rw [(itemOf_message done tail).1 hdone] at hlast
      exact ⟨before, _, heq.trans (congrArg (before ++ ·) hlast), hbefore⟩

/-- A clean dump is a run of messages up to NLMSG_DONE, with no fragment and no
bad length on the way. -/
theorem CleanDump.items {recvs : List Recv} (h : CleanDump recvs) :
    ∃ before after, recvs.flatMap Recv.items = before ++ Item.done :: after ∧
      ∀ i ∈ before, i = .plain ∨ i = .prohibit := by
  obtain ⟨front, last, rest, rfl, hfront, hlast⟩ := h
  have hall : ∀ i ∈ (front.map Recv.datagram).flatMap Recv.items, i = .plain ∨ i = .prohibit := by
    intro i hi
    obtain ⟨r, hr, hi⟩ := List.mem_flatMap.mp hi
    obtain ⟨d, hd, rfl⟩ := List.mem_map.mp hr
    obtain ⟨ms, hms, harmless⟩ := hfront d hd
    obtain ⟨before, heq, hbefore⟩ := hms.items harmless
    rw [items_nil, List.append_nil] at heq
    exact hbefore i (by rw [← heq]; exact hi)
  obtain ⟨before, after, heq, hbefore⟩ := hlast.items
  refine ⟨(front.map Recv.datagram).flatMap Recv.items ++ before,
    after ++ rest.flatMap Recv.items, ?_, ?_⟩
  · simp [Recv.items, heq]
  · intro i hi
    rcases List.mem_append.mp hi with hi | hi
    · exact hall i hi
    · exact hbefore i hi

theorem CleanDump.cons {d : Bytes} {recvs : List Recv} (hd : OnlyHarmless (received d))
    (h : CleanDump recvs) : CleanDump (.datagram d :: recvs) := by
  obtain ⟨front, last, rest, rfl, hfront, hlast⟩ := h
  refine ⟨d :: front, last, rest, rfl, ?_, hlast⟩
  intro e he
  rcases List.mem_cons.mp he with rfl | he
  · exact hd
  · exact hfront e he

theorem onlyHarmless_of_plain {bytes : Bytes} (h : ∀ i ∈ items bytes, i = .plain) :
    OnlyHarmless bytes := by
  obtain ⟨ms, rest, holds, harmless, hrest⟩ := holds_of_plain (List.append_nil _).symm h
  rw [eq_nil_of_items hrest] at holds
  exact ⟨ms, holds, harmless⟩

theorem msgType_of_itemOf_done {bytes : Bytes} (h : itemOf bytes = .done) :
    msgType bytes = nlmsgDone := by
  by_contra hother
  rw [itemOf, if_neg hother] at h
  split at h
  · exact absurd h (by decide)
  · split at h
    · exact absurd h (by decide)
    · exact absurd h (by decide)

theorem endsDump_of_plain {bytes : Bytes} {before after : List Item}
    (h : items bytes = before ++ Item.done :: after) (hbefore : ∀ i ∈ before, i = .plain) :
    EndsDump bytes := by
  obtain ⟨ms, left, holds, harmless, hleft⟩ := holds_of_plain h hbefore
  obtain ⟨m, tail, rfl, hitem, -⟩ := message_of_item hleft (by decide) (by decide)
  have hdone : msgType m.raw = nlmsgDone := by
    rw [← msgType_append tail m.headed]
    exact msgType_of_itemOf_done hitem
  exact ⟨ms, m, _, holds.append (Holds.cons m (Holds.nil _)), harmless, hdone⟩

/-- Plain items up to a NLMSG_DONE are a clean dump. -/
theorem cleanDump_of_plain {recvs : List Recv} {before after : List Item}
    (h : recvs.flatMap Recv.items = before ++ Item.done :: after)
    (hbefore : ∀ i ∈ before, i = .plain) : CleanDump recvs := by
  induction recvs generalizing before with
  | nil => exact absurd h (by simp)
  | cons r recvs ih =>
      rw [List.flatMap_cons] at h
      cases r with
      | failed =>
          cases before with
          | nil => exact absurd (List.cons.inj h).1 (by decide)
          | cons b before =>
              have hb := hbefore b (by simp)
              have hfailed : Item.failed = b := (List.cons.inj h).1
              rw [hb] at hfailed
              exact absurd hfailed (by decide)
      | datagram d =>
          -- either the dump goes on after this datagram or it ends in it
          have hgoesOn : ∀ next, before = items (received d) ++ next →
              recvs.flatMap Recv.items = next ++ Item.done :: after →
              CleanDump (.datagram d :: recvs) := by
            intro next hnext hrest
            rw [hnext] at hbefore
            have hclean := ih hrest fun i hi => hbefore i (List.mem_append_right _ hi)
            exact hclean.cons
              (onlyHarmless_of_plain fun i hi => hbefore i (List.mem_append_left _ hi))
          rcases List.append_eq_append_iff.mp h with ⟨next, hnext, hrest⟩ | ⟨cut, hcut, hrest⟩
          · exact hgoesOn next hnext hrest
          · cases cut with
            | nil =>
                refine hgoesOn [] ?_ hrest.symm
                rw [List.append_nil] at hcut ⊢
                exact hcut.symm
            | cons c cut =>
                cases (List.cons.inj hrest).1
                exact ⟨[], d, recvs, rfl, by simp, endsDump_of_plain hcut hbefore⟩

/-- In a list that begins with messages up to a NLMSG_DONE, the first item that
decides is one of these messages, and only messages stand before it. -/
theorem first_of_done {front rest before after : List Item} {item : Item}
    (heq : front ++ Item.done :: rest = before ++ item :: after)
    (hfront : ∀ i ∈ front, i = .plain ∨ i = .prohibit)
    (hbefore : ∀ i ∈ before, i.decides = false) :
    item ≠ .badLength ∧ .fragment ∉ before := by
  induction front generalizing before with
  | nil =>
      cases before with
      | nil =>
          cases (List.cons.inj heq).1
          exact ⟨by decide, by simp⟩
      | cons b before =>
          have hb := hbefore b (by simp)
          rw [← (List.cons.inj heq).1] at hb
          exact absurd hb (by decide)
  | cons f front ih =>
      have hf := hfront f (by simp)
      cases before with
      | nil =>
          have hitem : f = item := (List.cons.inj heq).1
          rw [← hitem]
          refine ⟨?_, by simp⟩
          rcases hf with rfl | rfl
          · decide
          · decide
      | cons b before =>
          have hb : f = b := (List.cons.inj heq).1
          obtain ⟨hbad, hfrag⟩ := ih (List.cons.inj heq).2 (fun i hi => hfront i (by simp [hi]))
            fun i hi => hbefore i (by simp [hi])
          refine ⟨hbad, ?_⟩
          rw [List.mem_cons, ← hb]
          rintro (h | h)
          · rw [← h] at hf
            exact absurd hf (by decide)
          · exact hfrag h

/-- An error is taken for a kill-switch, so `false` is what the probe found. -/
theorem lockdownActive_false {env : Probe} :
    lockdownActive env = some false ↔ probeProhibitRule env = some (.ok false) := by
  unfold lockdownActive
  cases probeProhibitRule env with
  | none => simp
  | some result => cases result <;> simp

/-- `false` without a bad length or a passed-over fragment comes after a clean dump. -/
theorem cleanDump_of_false {env : Probe} (hup : env.setUp = true)
    (hfirst : ∀ before item after, env.items = before ++ item :: after →
      (∀ i ∈ before, i.decides = false) →
      item ≠ .badLength ∧ (item = .done → .fragment ∉ before))
    (h : lockdownActive env = some false) : CleanDump env.recvs := by
  have hok := lockdownActive_false.mp h
  rw [probeProhibitRule_of_setUp hup] at hok
  obtain ⟨before, item, after, heq, hbefore, hitem⟩ := exists_first_of_verdict hok
  rw [heq, verdict_of_first hbefore hitem] at hok
  obtain ⟨hbad, hdone⟩ := hfirst before item after heq hbefore
  -- the items that say `false` are a bad length and NLMSG_DONE
  have hend : item = .done := by
    cases item <;> first | rfl | exact absurd rfl hbad | exact absurd hok (by decide)
  rw [hend] at heq
  refine cleanDump_of_plain heq ?_
  intro i hi
  have hquiet := hbefore i hi
  cases i <;> first | rfl | exact absurd hi (hdone hend) | exact absurd hquiet (by decide)

/-- A probe that does not come back has met no error. -/
theorem not_failed_of_none {env : Probe} (hup : env.setUp = true)
    (h : lockdownActive env = none) : .failed ∉ env.recvs := by
  intro hfailed
  have hnone : verdict env.items = none := by
    rw [← probeProhibitRule_of_setUp hup]
    exact Option.map_eq_none_iff.mp h
  have hmem : Item.failed ∈ env.items :=
    List.mem_flatMap.mpr ⟨.failed, hfailed, by simp [Recv.items]⟩
  exact absurd (decides_of_verdict_none hnone _ hmem) (by decide)

/-- **Where the probe fails closed.**  Of all that decides the first must not be a
bad length, which is taken for the end of the dump; and if it is NLMSG_DONE, no
fragment may stand before it, since a fragment is passed over. -/
theorem failsClosed_iff (env : Probe) :
    FailsClosed env ↔
      (env.setUp = true → ∀ before item after, env.items = before ++ item :: after →
        (∀ i ∈ before, i.decides = false) →
        item ≠ .badLength ∧ (item = .done → .fragment ∉ before)) := by
  constructor
  · rintro ⟨hclosed, -⟩ hup before item after heq hbefore
    have hverdict : item.decides = true → probeProhibitRule env = verdict [item] := by
      intro hitem
      rw [probeProhibitRule_of_setUp hup, heq, verdict_of_first hbefore hitem]
    have hclean : item = .badLength ∨ item = .done → .fragment ∉ before ∧ item ≠ .badLength := by
      intro hitem
      have hfalse : lockdownActive env = some false := by
        rcases hitem with rfl | rfl
        · exact lockdownActive_false.mpr (hverdict rfl)
        · exact lockdownActive_false.mpr (hverdict rfl)
      obtain ⟨front, rest, hfront, hkinds⟩ := (hclosed hfalse).2.items
      obtain ⟨hbad, hfrag⟩ := first_of_done (hfront.symm.trans heq) hkinds hbefore
      exact ⟨hfrag, hbad⟩
    exact ⟨fun hbad => (hclean (Or.inl hbad)).2 hbad, fun hdone => (hclean (Or.inr hdone)).1⟩
  · intro hfirst
    cases hup : env.setUp with
    | false =>
        have htrue := lockdownActive_of_not_setUp hup
        constructor
        · intro h
          rw [htrue] at h
          exact absurd h (by decide)
        · intro h
          rw [htrue] at h
          exact absurd h (by decide)
    | true =>
        constructor
        · exact fun h => ⟨hup, cleanDump_of_false hup (hfirst hup) h⟩
        · exact fun h => ⟨hup, not_failed_of_none hup h⟩

/-- A datagram of sixteen bytes whose header declares seventeen: the message is
cut short, and the answer is that there is no kill-switch. -/
theorem truncated_dump_opens :
    ¬ FailsClosed
      { socket := true, timeoutSet := true, sent := true,
        recvs := [.datagram [17, 0, 0, 0, 32, 0, 2, 0, 1, 0, 0, 0, 0, 0, 0, 0]] } := by
  intro h
  obtain ⟨before, after, heq, -⟩ := (h.1 (by decide)).2.items
  have hitems : items [17, 0, 0, 0, 32, 0, 2, 0, 1, 0, 0, 0, 0, 0, 0, 0] = [.badLength] := by
    simp [items, nlMsgHdrSize, msgLen, byteAt]
  have hdone : Item.done ∈ [Item.badLength] := by
    rw [← hitems]
    have hmem : Item.done ∈ before ++ Item.done :: after := by simp
    rw [← heq] at hmem
    simpa [Recv.items, received, probeBuffer] using hmem
  exact absurd hdone (by decide)

end Tarishd
