import TarishDaemon.Quickshare.Endpoint
import TarishDaemon.Rust.Boundaries

/-!
# Endpoint info there and back

One byte holds the length of the name, so a name of more than 255 bytes is cut.  The cut goes
back from byte 255 over bytes that continue a character, and so ends at the boundary before
it; what is read is the longest prefix of the name that fits (`parse_encode_longest`).
-/

namespace Quickshare

open Rust

/-! ## The cut -/

variable {n : Bytes} {cut : Nat}

theorem cutBack_le (n : Bytes) (cut : Nat) : cutBack n cut ≤ cut := by
  induction cut with
  | zero => exact Nat.le_refl 0
  | succ cut ih =>
      unfold cutBack
      split
      · exact Nat.le_succ_of_le ih
      · exact Nat.le_refl _

/-- The cut ends at the front, or where no byte continues a character. -/
theorem cutBack_stops : cutBack n cut = 0 ∨ isCont (n.getD (cutBack n cut) 0) = false := by
  induction cut with
  | zero => exact .inl rfl
  | succ cut ih =>
      unfold cutBack
      split
      · exact ih
      · next hstop => exact .inr (by simpa using hstop)

/-- It passes over continuing bytes only. -/
theorem isCont_of_cutBack_lt {j : Nat} (hlt : cutBack n cut < j) (hle : j ≤ cut) :
    isCont (n.getD j 0) = true := by
  induction cut with
  | zero =>
      have hzero : cutBack n 0 = 0 := rfl
      omega
  | succ cut ih =>
      unfold cutBack at hlt
      split at hlt
      · next hcont =>
          by_cases hj : j = cut + 1
          · rw [hj]
            exact hcont
          · exact ih hlt (by omega)
      · omega

/-- **The cut leaves the longest prefix that fits.** -/
theorem longestWithin_cutBack {t : Text} (hlong : cut < (asBytes t).length) :
    ∃ p, LongestWithin cut t p ∧ (asBytes t).take (cutBack (asBytes t) cut) = asBytes p := by
  have hle := cutBack_le (asBytes t) cut
  obtain ⟨p, hp, hlen⟩ : ∃ p, p <+: t ∧ (asBytes p).length = cutBack (asBytes t) cut := by
    rcases cutBack_stops (n := asBytes t) with hzero | hstop
    · exact ⟨[], List.nil_prefix, hzero.symm⟩
    · exact (isCont_eq_false_iff (by omega)).mp hstop
  have hlongest : ∀ q, q <+: t → (asBytes q).length ≤ cut → q <+: p := by
    intro q hq hfits
    refine prefix_of_length_le hp hq (Nat.not_lt.mp fun hover => ?_)
    -- a boundary behind the cut would have stopped it
    have hcont := isCont_of_cutBack_lt (hlen ▸ hover) hfits
    have hboundary := (isCont_eq_false_iff (t := t) (by omega)).mpr ⟨q, hq, rfl⟩
    rw [hcont] at hboundary
    cases hboundary
  refine ⟨p, ⟨hp, by omega, hlongest⟩, ?_⟩
  obtain ⟨rest, rfl⟩ := hp
  rw [← hlen, asBytes_append, List.take_left]

theorem exists_longestWithin (budget : Nat) (t : Text) : ∃ p, LongestWithin budget t p := by
  by_cases hlong : budget < (asBytes t).length
  · obtain ⟨p, hp, -⟩ := longestWithin_cutBack hlong
    exact ⟨p, hp⟩
  · exact ⟨t, LongestWithin.whole (Nat.not_lt.mp hlong)⟩

/-! ## There and back -/

namespace EndpointInfo

variable {e : EndpointInfo}

/-- The name that goes out with a visible endpoint. -/
theorem encode_visible (visible : e.hidden = false) :
    ∃ p, LongestWithin 255 (e.deviceName.getD []) p ∧
      e.encode = { e with deviceName := some p }.encode := by
  by_cases hlong : (asBytes (e.deviceName.getD [])).length > 255
  · obtain ⟨p, hp, htake⟩ := longestWithin_cutBack hlong
    refine ⟨p, hp, ?_⟩
    have hfits : ¬ (asBytes p).length > 255 := Nat.not_lt.mpr hp.fits
    simp only [encode, visible, Bool.false_eq_true, if_false, hlong, if_true, htake,
      Option.getD_some, hfits]
  · refine ⟨_, LongestWithin.whole (Nat.not_lt.mp hlong), ?_⟩
    simp only [encode, visible, Option.getD_some]

/-- A hidden endpoint is read back without a name. -/
theorem parse_encode_hidden (hidden : e.hidden = true) (small : e.version.toNat < 8) :
    parse e.encode = some { e with deviceName := none } := by
  have htype := e.deviceType.raw_lt
  have hsized := e.metadata.sized
  have hheader := toNat_ofNat_byte
    (n := e.version.toNat % 8 * 32 + 16 + e.deviceType.raw % 8 * 2) (by omega)
  have hwritten : e.encode =
      UInt8.ofNat (e.version.toNat % 8 * 32 + 16 + e.deviceType.raw % 8 * 2) ::
        e.metadata.bytes := by
    simp [encode, hidden]
  have hversion : (e.version.toNat % 8 * 32 + 16 + e.deviceType.raw % 8 * 2) / 32 =
      e.version.toNat := by omega
  have hhidden : (e.version.toNat % 8 * 32 + 16 + e.deviceType.raw % 8 * 2) / 16 % 2 = 1 := by
    omega
  have hraw : (e.version.toNat % 8 * 32 + 16 + e.deviceType.raw % 8 * 2) / 2 % 8 =
      e.deviceType.raw := by omega
  have htake : e.metadata.bytes.take metadataLen = e.metadata.bytes := by
    rw [List.take_of_length_le (by omega)]
  have hback : UInt8.ofNat e.version.toNat = e.version := UInt8.ofNat_toNat
  rw [hwritten, parse]
  simp only [List.head?_cons, List.drop_succ_cons, List.drop_zero, htake, Octets.tryFrom_bytes,
    hheader, hversion, hhidden, hraw, DeviceType.fromRaw_raw, hback, Option.bind_eq_bind,
    Option.bind_some]
  obtain ⟨version, hidden, deviceType, metadata, deviceName⟩ := e
  subst hidden
  rfl

/-- **What is read of what was written**: everything but what a hidden endpoint keeps to
itself, and of its name the longest prefix that fits. -/
theorem parse_encode_longest (e : EndpointInfo) (small : e.version.toNat < 8) :
    ∃ p, LongestWithin 255 (e.deviceName.getD []) p ∧
      parse e.encode = some { e with deviceName := if e.hidden then none else some p } := by
  by_cases hhidden : e.hidden = true
  · obtain ⟨p, hp⟩ := exists_longestWithin 255 (e.deviceName.getD [])
    refine ⟨p, hp, ?_⟩
    rw [if_pos hhidden]
    exact parse_encode_hidden hhidden small
  · have visible : e.hidden = false := Bool.eq_false_iff.mpr hhidden
    obtain ⟨p, hp, hencode⟩ := encode_visible visible
    refine ⟨p, hp, ?_⟩
    have hback : UInt8.ofNat (e.version.toNat % 8) = e.version := by
      rw [Nat.mod_eq_of_lt small]
      exact UInt8.ofNat_toNat
    have hnamed : { e with deviceName := some p }.hidden = false := visible
    rw [if_neg hhidden, hencode, parse_encode hnamed rfl hp.fits, hback]

/-- 128 characters of two bytes: the last of them does not fit. -/
def longNamed : EndpointInfo where
  version := 1
  hidden := false
  deviceType := .phone
  metadata := ⟨List.replicate metadataLen 0, rfl⟩
  deviceName := some (List.replicate 128 'é')

theorem parse_encode_longest_longNamed :
    ∃ p, LongestWithin 255 (longNamed.deviceName.getD []) p ∧
      parse longNamed.encode = some { longNamed with deviceName := some p } :=
  parse_encode_longest longNamed (by decide)

end EndpointInfo

end Quickshare
