/-
# The pod wire image across relay hops

A pod travels down the relay tree as the bytes of a `NewPodRequest`.  The root marshals
`NewPodRequest{Pod: pod}` once (`marshalPod` in `DistScheduler.Run`); every sender then writes
the five bytes `0x0d, le32(requestId)` in front of the raw pod it holds (`sendPodToEndpoint`),
and every receiver decodes the request and hands `bytes[5:]` to its own `RelayPod`
(`UnmarshalPodRaw`), while `NewPod` echoes the id.

The generated `podservice` code is not part of the sources, so the request's layout comes from
the service's documentation and `sendPodToEndpoint`'s comments: `request_id` is field `1`, a
`fixed32`, and the pod is an embedded message under the field number `podField`, a parameter.  The pod's own codec is a parameter too, assumed to
round-trip.  The proto decoder is modelled on the wire format: varint tags, `fixed32` read
little-endian, length-delimited fields, unknown fields skipped.

The result is `relayHops_image`: on every path, whatever the ids, every hop sends
`0x0d :: le32 r ++ E`, decodes `{r, pod}`, hands `E` on, and answers `r`.
-/
import Mathlib.Algebra.Order.Ring.Nat
import Mathlib.Data.List.Basic

namespace DistScheduler

/-! ## 1. The five-byte prefix -/

/-- `binary.LittleEndian.PutUint32`. -/
def putUint32 (v : UInt32) : List UInt8 :=
  [v.toUInt8, (v >>> 8).toUInt8, (v >>> 16).toUInt8, (v >>> 24).toUInt8]

/-- `requestIdBytes` of `sendPodToEndpoint`: the tag `0x0d` (field `1`, wire type `fixed32`)
and the id. -/
def requestIdBytes (requestId : UInt32) : List UInt8 := 0x0d :: putUint32 requestId

/-- `msg := append(requestIdBytes[:], pod...)`. -/
def relayMessage (requestId : UInt32) (rawPod : List UInt8) : List UInt8 :=
  requestIdBytes requestId ++ rawPod

theorem toNat_ofNat_uint8 (n : Nat) : (UInt8.ofNat n).toNat = n % 256 := by
  simp [UInt8.ofNat, UInt8.toNat, BitVec.toNat_ofNat]

theorem toNat_shiftRight_uint32 (v k : UInt32) (hk : k.toNat < 32) :
    (v >>> k).toNat = v.toNat / 2 ^ k.toNat := by
  show (v.toBitVec >>> (UInt32.mod k 32).toBitVec).toNat = _
  rw [BitVec.ushiftRight_eq', BitVec.toNat_ushiftRight, Nat.shiftRight_eq_div_pow]
  congr 2
  show (k.toBitVec % BitVec.ofNat 32 32).toNat = k.toNat
  rw [BitVec.toNat_umod, BitVec.toNat_ofNat]
  exact Nat.mod_eq_of_lt hk

/-- The `k`-th byte `PutUint32` writes. -/
theorem toNat_putUint32_byte (v k : UInt32) (hk : k.toNat < 32) :
    (v >>> k).toUInt8.toNat = v.toNat / 2 ^ k.toNat % 256 := by
  rw [UInt32.toUInt8, Nat.toUInt8, toNat_ofNat_uint8, toNat_shiftRight_uint32 v k hk]

/-! ## 2. The proto wire format -/

/-- A base-128 varint, low group first. -/
def encodeVarint (n : Nat) : List UInt8 :=
  if n < 128 then [n.toUInt8] else (n % 128 + 128).toUInt8 :: encodeVarint (n / 128)
termination_by n
decreasing_by omega

/-- Read a varint. -/
def decodeVarint : List UInt8 → Option (Nat × List UInt8)
  | [] => none
  | b :: rest =>
    if b.toNat < 128 then some (b.toNat, rest)
    else (decodeVarint rest).map fun (v, r) => (b.toNat - 128 + 128 * v, r)

theorem encodeVarint_ne_nil (n : Nat) : encodeVarint n ≠ [] := by
  rw [encodeVarint]; split <;> simp

theorem encodeVarint_of_lt {n : Nat} (h : n < 128) : encodeVarint n = [n.toUInt8] := by
  rw [encodeVarint, if_pos h]

/-- Between `128` and `16383` a varint takes two bytes. -/
theorem encodeVarint_of_lt_two {n : Nat} (h1 : 128 ≤ n) (h2 : n < 16384) :
    encodeVarint n = [(n % 128 + 128).toUInt8, (n / 128).toUInt8] := by
  rw [encodeVarint, if_neg (by omega), encodeVarint_of_lt (by omega)]

/-- **A varint reads back**, with any bytes after it. -/
theorem decodeVarint_encodeVarint (n : Nat) (rest : List UInt8) :
    decodeVarint (encodeVarint n ++ rest) = some (n, rest) := by
  induction n using Nat.strong_induction_on with
  | _ n ih =>
    rw [encodeVarint]
    split
    · rename_i h
      have hb : (UInt8.ofNat n).toNat = n := by rw [toNat_ofNat_uint8]; omega
      simp [decodeVarint, Nat.toUInt8, hb, h]
    · rename_i h
      have hb : (UInt8.ofNat (n % 128 + 128)).toNat = n % 128 + 128 := by
        rw [toNat_ofNat_uint8]; omega
      rw [List.cons_append, decodeVarint, Nat.toUInt8, hb, if_neg (by omega),
        ih (n / 128) (by omega), Option.map_some']
      simp only [hb, Option.some.injEq, Prod.mk.injEq, and_true]
      omega

/-- Read a `fixed32`, little-endian. -/
def readFixed32 : List UInt8 → Option (UInt32 × List UInt8)
  | b0 :: b1 :: b2 :: b3 :: rest =>
    some ((b0.toNat + 256 * b1.toNat + 65536 * b2.toNat + 16777216 * b3.toNat).toUInt32, rest)
  | _ => none

/-- **`PutUint32` reads back.** -/
theorem readFixed32_putUint32 (v : UInt32) (rest : List UInt8) :
    readFixed32 (putUint32 v ++ rest) = some (v, rest) := by
  have h0 : v.toUInt8.toNat = v.toNat % 256 := by
    rw [UInt32.toUInt8, Nat.toUInt8, toNat_ofNat_uint8]
  have h8 : (v >>> 8).toUInt8.toNat = v.toNat / 256 % 256 := toNat_putUint32_byte v 8 (by decide)
  have h16 : (v >>> 16).toUInt8.toNat = v.toNat / 65536 % 256 :=
    toNat_putUint32_byte v 16 (by decide)
  have h24 : (v >>> 24).toUInt8.toNat = v.toNat / 16777216 % 256 :=
    toNat_putUint32_byte v 24 (by decide)
  have hv : v.toNat < 4294967296 := v.toBitVec.isLt
  simp only [putUint32, List.cons_append, List.nil_append, readFixed32, h0, h8, h16, h24]
  congr
  apply UInt32.eq_of_toBitVec_eq
  apply BitVec.eq_of_toNat_eq
  show (_ : Nat) % 2 ^ 32 = v.toNat
  omega

/-- Skip the payload of an unknown field by its wire type. -/
def skipField (wireType : Nat) (bytes : List UInt8) : Option (List UInt8) :=
  match wireType with
  | 0 => (decodeVarint bytes).map (·.2)
  | 1 => if 8 ≤ bytes.length then some (bytes.drop 8) else none
  | 2 => (decodeVarint bytes).bind fun (len, r) => if len ≤ r.length then some (r.drop len) else none
  | 5 => if 4 ≤ bytes.length then some (bytes.drop 4) else none
  | _ => none

/-! ## 3. `NewPodRequest` -/

section Request

variable {Pod : Type} (podField : Nat) (marshalPod : Pod → List UInt8)
  (unmarshalPod : List UInt8 → Option Pod)

/-- `podservice.NewPodRequest`, as proto3 decodes it: an absent id is `0`, an absent pod `nil`. -/
structure NewPodRequest (Pod : Type) where
  requestId : UInt32
  pod : Option Pod

/-- Modelled on the documented layout: the fields of `NewPodRequest` (`request_id` is field `1`,
`fixed32`; the pod is the embedded message under `podField`) as proto's `Unmarshal` reads
them, one field per unit of `fuel`, the last occurrence of a field winning. -/
def unmarshalFields : Nat → NewPodRequest Pod → List UInt8 → Option (NewPodRequest Pod)
  | _, acc, [] => some acc
  | 0, _, _ :: _ => none
  | fuel + 1, acc, bytes@(_ :: _) =>
    (decodeVarint bytes).bind fun (tag, rest) =>
      if tag = 1 * 8 + 5 then
        (readFixed32 rest).bind fun (id, rest') => unmarshalFields fuel { acc with requestId := id } rest'
      else if tag = podField * 8 + 2 then
        (decodeVarint rest).bind fun (len, rest') =>
          if len ≤ rest'.length then
            (unmarshalPod (rest'.take len)).bind fun pod =>
              unmarshalFields fuel { acc with pod := some pod } (rest'.drop len)
          else none
      else (skipField (tag % 8) rest).bind (unmarshalFields fuel acc)

/-- `protoCodec.Unmarshal(bytes, &NewPodRequest{})`. -/
def unmarshalNewPodRequest (bytes : List UInt8) : Option (NewPodRequest Pod) :=
  unmarshalFields podField unmarshalPod bytes.length ⟨0, none⟩ bytes

/-- `protoCodec.Marshal(&NewPodRequest{Pod: pod})`: proto3 writes no field for the unset id, so
only the pod field. -/
def marshalNewPodRequest (pod : Pod) : List UInt8 :=
  encodeVarint (podField * 8 + 2) ++ encodeVarint (marshalPod pod).length ++ marshalPod pod

/-- `UnmarshalPodRaw`: the decoded request, and the raw pod its `getRawPod` closure hands
`RelayPod`, `bytes[5:]` (`none` is the slice panic). -/
def unmarshalPodRaw (bytes : List UInt8) : Option (NewPodRequest Pod × Option (List UInt8)) :=
  (unmarshalNewPodRequest podField unmarshalPod bytes).map fun req =>
    (req, if 5 ≤ bytes.length then some (bytes.drop 5) else none)

/-- `NewPod`'s answer: `NewPodResponse{RequestId: req.RequestId}`. -/
def newPodResponse (req : NewPodRequest Pod) : UInt32 := req.requestId

theorem unmarshalFields_podField (hpod : ∀ p, unmarshalPod (marshalPod p) = some p)
    (fuel : Nat) (acc : NewPodRequest Pod) (pod : Pod) :
    unmarshalFields podField unmarshalPod (fuel + 1) acc (marshalNewPodRequest podField marshalPod pod) =
      some { acc with pod := some pod } := by
  rw [marshalNewPodRequest, List.append_assoc]
  obtain ⟨b, bs, hbs⟩ := List.exists_cons_of_ne_nil
    (List.append_ne_nil_of_left_ne_nil (encodeVarint_ne_nil (podField * 8 + 2))
      (encodeVarint (marshalPod pod).length ++ marshalPod pod))
  rw [hbs, unmarshalFields, ← hbs, decodeVarint_encodeVarint, Option.some_bind]
  simp only
  rw [if_neg (by omega), if_pos trivial, decodeVarint_encodeVarint, Option.some_bind]
  simp only [le_refl, if_true, List.take_length, hpod, Option.some_bind, List.drop_length]
  cases fuel <;> rfl

/-- **One hop.**  The receiver decodes the prefixed image to the id and the pod, hands the
image on unchanged, and `NewPod` answers the id. -/
theorem unmarshalPodRaw_relayMessage (hpod : ∀ p, unmarshalPod (marshalPod p) = some p)
    (requestId : UInt32) (pod : Pod) :
    unmarshalPodRaw podField unmarshalPod (relayMessage requestId (marshalNewPodRequest podField marshalPod pod)) =
      some (⟨requestId, some pod⟩, some (marshalNewPodRequest podField marshalPod pod)) := by
  have hlen : (putUint32 requestId ++ marshalNewPodRequest podField marshalPod pod).length =
      ((marshalNewPodRequest podField marshalPod pod).length + 3) + 1 := by
    simp only [putUint32, List.length_append, List.length_cons, List.length_nil]; omega
  have h13 : decodeVarint (0x0d :: (putUint32 requestId ++ marshalNewPodRequest podField marshalPod pod)) =
      some (13, putUint32 requestId ++ marshalNewPodRequest podField marshalPod pod) := rfl
  simp only [unmarshalPodRaw, unmarshalNewPodRequest, relayMessage, requestIdBytes, List.cons_append,
    List.length_cons]
  rw [unmarshalFields, h13, Option.some_bind]
  simp only
  rw [if_pos trivial, readFixed32_putUint32, Option.some_bind]
  simp only
  rw [hlen, unmarshalFields_podField podField marshalPod unmarshalPod hpod, Option.map_some',
    if_pos (by omega)]
  rfl

/-! ## 4. Relay paths -/

/-- One hop: the message the sender writes, the request the receiver decodes, the raw pod the
receiver hands its own `RelayPod`, and `NewPod`'s answer. -/
structure Hop (Pod : Type) where
  message : List UInt8
  request : NewPodRequest Pod
  forwarded : List UInt8
  response : UInt32

/-- A relay path with the request ids its senders draw: each sender prefixes its id to the raw
pod it holds, and the receiver's `getRawPod` gives the next sender its raw pod.  `none` when a
receiver fails to decode or `getRawPod` panics. -/
def relayHops (rawPod : List UInt8) : List UInt32 → Option (List (Hop Pod))
  | [] => some []
  | requestId :: ids =>
    let message := relayMessage requestId rawPod
    (unmarshalPodRaw podField unmarshalPod message).bind fun (req, next) =>
      next.bind fun rawPod' =>
        (relayHops rawPod' ids).map fun hops => ⟨message, req, rawPod', newPodResponse req⟩ :: hops

/-- **The wire image survives every relay path.**  Whatever the ids, hop `i` sends
`0x0d :: le32 rᵢ ++ E` with `E` the root's marshalled request; the receiver decodes
`{rᵢ, pod}` and forwards `E`; `NewPod` answers `rᵢ`. -/
theorem relayHops_image (hpod : ∀ p, unmarshalPod (marshalPod p) = some p) (pod : Pod)
    (ids : List UInt32) :
    relayHops podField unmarshalPod (marshalNewPodRequest podField marshalPod pod) ids =
      some (ids.map fun r =>
        ⟨0x0d :: putUint32 r ++ marshalNewPodRequest podField marshalPod pod, ⟨r, some pod⟩,
          marshalNewPodRequest podField marshalPod pod, r⟩) := by
  induction ids with
  | nil => rfl
  | cons r ids ih =>
    rw [relayHops, unmarshalPodRaw_relayMessage podField marshalPod unmarshalPod hpod, Option.some_bind]
    simp only [Option.some_bind, ih, Option.map_some', List.map_cons]
    rfl

end Request

theorem relayHops_image_rawPod :
    relayHops 2 some (marshalNewPodRequest 2 id [0x0a, 0x03, 0x70, 0x30, 0x30]) [0, 0x0d0d0d0d] =
      some ([0, 0x0d0d0d0d].map fun r =>
        ⟨0x0d :: putUint32 r ++ marshalNewPodRequest 2 id [0x0a, 0x03, 0x70, 0x30, 0x30],
          ⟨r, some [0x0a, 0x03, 0x70, 0x30, 0x30]⟩,
          marshalNewPodRequest 2 id [0x0a, 0x03, 0x70, 0x30, 0x30], r⟩) :=
  relayHops_image 2 id some (fun _ => rfl) _ _

end DistScheduler
