/-
# `RelayPod`'s pod-name hack

For logging, `RelayPod` reads the pod's name out of the raw request at fixed offsets:
`podNameLen := rawPod[7]` and `podName := string(rawPod[8 : 8+podNameLen])`, and hands the
result to `sendPodToEndpoint`, whose sampled-logging test indexes `podName[len-1]` and
`podName[len-2]`.

`rawPod` is `NewPodRequest{Pod: P}` as the root marshals it, or the `bytes[5:]` a relaying
peer forwards, which is the same image (`relayMessage_drop_five`).  It opens with the pod's tag,
the pod's length, the tag of `metadata` (field `1` of `Pod`, written first), the metadata's
length, the tag of `name` (field `1` of `ObjectMeta`, written first) and the name's length.
The offsets `7` and `8` therefore hold when the first two lengths take two varint bytes each
and the name's one (`relayPodName_marshal`): a metadata of at least `128` bytes, a pod under
`16384` and a name under `128`.

Outside that range the hack reads other bytes.  Its bound `8+podNameLen` is `byte` arithmetic,
so a name of `248` to `253` bytes, whose length varint begins with a byte of that value, wraps
it below `8` and the slice panics; a name of `200` bytes is read as `0x01` and its first `199`
bytes (`relayPodName_misreads`).
-/
import DistScheduler.Relay.Wire

namespace DistScheduler

/-- The parts of a `v1.Pod`'s encoding that the hack reads: the bytes of the name, and the
encodings of the other fields of `ObjectMeta` and of `Pod`. -/
structure PodImage where
  name : List UInt8
  metaRest : List UInt8
  podRest : List UInt8

/-- `ObjectMeta`'s encoding: `name` (field `1`, length-delimited) first. -/
def encodeObjectMeta (p : PodImage) : List UInt8 :=
  0x0a :: encodeVarint p.name.length ++ p.name ++ p.metaRest

/-- `Pod`'s encoding: `metadata` (field `1`, length-delimited) first, then `spec` and
`status`. -/
def encodePod (p : PodImage) : List UInt8 :=
  0x0a :: encodeVarint (encodeObjectMeta p).length ++ encodeObjectMeta p ++ p.podRest

/-- `podNameLen := rawPod[7]` and `podName := string(rawPod[8 : 8+podNameLen])`, the bound in
`byte` arithmetic.  `none` is the index or slice panic. -/
def relayPodName (rawPod : List UInt8) : Option (List UInt8) :=
  (rawPod[7]?).bind fun podNameLen =>
    let hi := (8 + podNameLen).toNat
    if 8 ≤ hi ∧ hi ≤ rawPod.length then some ((rawPod.drop 8).take (hi - 8)) else none

/-- What a relaying peer forwards is the image it received. -/
theorem relayMessage_drop_five (requestId : UInt32) (rawPod : List UInt8) :
    (relayMessage requestId rawPod).drop 5 = rawPod := rfl

theorem encodePod_length (p : PodImage) :
    (encodePod p).length = 1 + (encodeVarint (encodeObjectMeta p).length).length +
      (encodeObjectMeta p).length + p.podRest.length := by
  simp only [encodePod, List.length_cons, List.length_append]
  omega

theorem toNat_add_uint8 (a b : UInt8) : (a + b).toNat = (a.toNat + b.toNat) % 256 := by
  simp [UInt8.add_def, UInt8.toNat, BitVec.toNat_add]

/-- The first seven bytes of the image when the pod's and the metadata's lengths take two
varint bytes each; the name's length varint comes next. -/
theorem marshal_layout {podField : Nat} (hf : podField < 16) {p : PodImage}
    (hmeta : 128 ≤ (encodeObjectMeta p).length) (hpod : (encodePod p).length < 16384) :
    marshalNewPodRequest podField encodePod p =
      (podField * 8 + 2).toUInt8 :: ((encodePod p).length % 128 + 128).toUInt8 ::
        ((encodePod p).length / 128).toUInt8 :: 0x0a ::
        ((encodeObjectMeta p).length % 128 + 128).toUInt8 ::
        ((encodeObjectMeta p).length / 128).toUInt8 :: 0x0a ::
        (encodeVarint p.name.length ++ p.name ++ p.metaRest ++ p.podRest) := by
  have hlen := encodePod_length p
  have hE : encodePod p = 0x0a :: ((encodeObjectMeta p).length % 128 + 128).toUInt8 ::
      ((encodeObjectMeta p).length / 128).toUInt8 :: (encodeObjectMeta p ++ p.podRest) := by
    rw [encodePod, encodeVarint_of_lt_two hmeta (by omega)]; rfl
  rw [marshalNewPodRequest, encodeVarint_of_lt (by omega), encodeVarint_of_lt_two (by omega) hpod]
  generalize (encodePod p).length = lE
  rw [hE]
  generalize (encodeObjectMeta p).length = lM
  simp only [encodeObjectMeta, List.singleton_append, List.cons_append, List.append_assoc,
    List.nil_append]

/-- **The hack inverts the encoder inside the size range.** -/
theorem relayPodName_marshal {podField : Nat} (hf : podField < 16) {p : PodImage}
    (hname : p.name.length < 128) (hmeta : 128 ≤ (encodeObjectMeta p).length)
    (hpod : (encodePod p).length < 16384) :
    relayPodName (marshalNewPodRequest podField encodePod p) = some p.name := by
  have hbyte : (8 + p.name.length.toUInt8).toNat = 8 + p.name.length := by
    rw [toNat_add_uint8, Nat.toUInt8, toNat_ofNat_uint8]
    show (8 + p.name.length % 256) % 256 = _
    omega
  rw [marshal_layout hf hmeta hpod, encodeVarint_of_lt hname]
  simp [relayPodName, hbyte]
  omega

/-- **Names of `128` bytes or more are misread**: the hack takes the first byte of the name's
two-byte length as the length, and panics when `8` plus that byte wraps. -/
theorem relayPodName_longName {podField : Nat} (hf : podField < 16) {p : PodImage}
    (hname : 128 ≤ p.name.length)
    (hsize : p.name.length + p.metaRest.length + p.podRest.length + 6 < 16384) :
    relayPodName (marshalNewPodRequest podField encodePod p) =
      if 120 ≤ p.name.length % 128 then none
      else some (((p.name.length / 128).toUInt8 :: p.name).take (p.name.length % 128 + 128)) := by
  have hv := encodeVarint_of_lt_two hname (by omega)
  have hmeta : (encodeObjectMeta p).length = p.name.length + p.metaRest.length + 3 := by
    simp only [encodeObjectMeta, hv, List.length_cons, List.length_append, List.length_nil]
    omega
  have hpod : (encodePod p).length < 16384 := by
    rw [encodePod_length, hmeta, encodeVarint_of_lt_two (by omega) (by omega)]
    simp only [List.length_cons, List.length_nil]
    omega
  have hbyte :
      (8 + (p.name.length % 128 + 128).toUInt8).toNat = (p.name.length % 128 + 136) % 256 := by
    rw [toNat_add_uint8, Nat.toUInt8, toNat_ofNat_uint8]
    show (8 + (p.name.length % 128 + 128) % 256) % 256 = _
    omega
  rw [marshal_layout hf (by omega) hpod, hv]
  simp only [relayPodName, List.cons_append, List.getElem?_cons_succ, List.getElem?_cons_zero,
    Option.some_bind, hbyte, List.drop_succ_cons, List.drop_zero, List.length_cons,
    List.length_append, List.nil_append]
  split_ifs with hok hwrap hwrap
  · omega
  · rw [show (p.name.length % 128 + 136) % 256 - 8 = p.name.length % 128 + 128 by omega,
      ← List.cons_append, ← List.cons_append, List.append_assoc,
      List.take_append_of_le_length (by simp; omega)]
  · rfl
  · omega

/-- Two valid names of `a`s: at `250` bytes `RelayPod` panics, and `200` bytes are read as
`0x01` followed by the first `199`. -/
theorem relayPodName_misreads :
    relayPodName (marshalNewPodRequest 2 encodePod ⟨List.replicate 250 0x61, [], []⟩) = none ∧
      relayPodName (marshalNewPodRequest 2 encodePod ⟨List.replicate 200 0x61, [], []⟩) =
        some (1 :: List.replicate 199 0x61) := by
  constructor
  · generalize hl : List.replicate 250 (0x61 : UInt8) = l
    have hlen : l.length = 250 := by rw [← hl, List.length_replicate]
    rw [relayPodName_longName (by omega) (by show 128 ≤ l.length; omega)
      (by show l.length + 0 + 0 + 6 < 16384; omega)]
    exact if_pos (by rw [hlen]; decide)
  · generalize hl : List.replicate 200 (0x61 : UInt8) = l
    have hlen : l.length = 200 := by rw [← hl, List.length_replicate]
    rw [relayPodName_longName (by omega) (by show 128 ≤ l.length; omega)
      (by show l.length + 0 + 0 + 6 < 16384; omega)]
    show (if 120 ≤ l.length % 128 then none else _) = _
    rw [hlen, if_neg (by decide), ← hl]
    rw [show 200 % 128 + 128 = 199 + 1 from rfl, List.take_succ_cons, List.take_replicate]
    rfl

end DistScheduler
