import Terraboot.Boards
import Terraboot.Canserial

/-!
# CAN Addressing by the Flash Tool

`CanSocket` of `scripts/flashtool.py` against the admin handlers of the device: how a node
id is chosen and assigned, and how devices that wait for one are found. The dictionary
`nodes` maps the CAN ids the tool listens on to the nodes registered for them; of a node
only the id it transmits on is kept.

## Main results

* `setNodeId_shortId`: the short ids the tool asks for.
* `addresses_never_agree`: the device ignores every one of them, and an unassigned device
  is never reported.
-/

namespace Terraboot

namespace CanSocket

/-- The constants of `flashtool.py`. -/
def klipperSetNodeCmd : ℕ := 0x01
def canbusIdAdmin : ℕ := 0x3f0
def canbusIdAdminResp : ℕ := 0x3f1
def canbusCmdQueryUnassigned : ℕ := 0x00
def canbusCmdSetNodeid : ℕ := 0x11
def canbusRespNeedNodeid : ℕ := 0x20
def canbusNodeidOffset : ℕ := 128

/-- A packet of at most 8 bytes; `struct.pack` fills the data up with zeros. -/
def packet (canId : ℕ) (data : List Byte) : CanbusMsg where
  id := BitVec.ofNat 32 canId
  dlc := BitVec.ofNat 32 (data.take 8).length
  data := data.take 8 ++ List.replicate (8 - (data.take 8).length) 0
  data_length := by
    rw [List.length_append, List.length_replicate, List.length_take]
    omega

/-- The packets of a nonempty payload. -/
def sendPayload (canId : ℕ) (payload : List Byte) : List CanbusMsg :=
  if payload.length ≤ 8 then [packet canId payload]
  else packet canId (payload.take 8) :: sendPayload canId (payload.drop 8)
termination_by payload.length
decreasing_by
  rw [List.length_drop]
  omega

/-- `CanSocket.send` -/
def send (canId : ℕ) (payload : List Byte) : List CanbusMsg :=
  -- `CAN_EFF_FLAG`
  let canId := if 0x7FF < canId then canId ||| 0x80000000 else canId
  if payload = [] then [packet canId []] else sendPayload canId payload

/-- The bytes of a UUID given as a number. -/
def uuidBytes (uuid : ℕ) : List ℕ :=
  (List.range 6).map fun i => (uuid >>> ((5 - i) * 8)) &&& 0xFF

/-- `bytes(plist)`, which raises if an element is not a byte. -/
def toBytes (plist : List ℕ) : Option (List Byte) :=
  if ∀ v ∈ plist, v < 256 then some (plist.map (BitVec.ofNat 8)) else none

/-- An assignment to an item of a dictionary. -/
def setItem (nodes : List (ℕ × ℕ)) (key node : ℕ) : List (ℕ × ℕ) :=
  if nodes.lookup key = none then nodes ++ [(key, node)]
  else nodes.map fun kv => if kv.1 = key then (key, node) else kv

/-- `CanSocket._set_node_id`: the packets it sends, the node it returns and the new
dictionary; `none` when it raises. -/
def setNodeId (nodes : List (ℕ × ℕ)) (uuid : ℕ) :
    Option (List CanbusMsg × ℕ × List (ℕ × ℕ)) :=
  let nodeId := nodes.length + canbusNodeidOffset
  let plist := canbusCmdSetNodeid :: uuidBytes uuid ++ [nodeId]
  match toBytes plist with
  | none => none
  | some payload =>
      let decodedId := nodeId * 2 + 0x100
      some (send canbusIdAdmin payload, decodedId, setItem nodes (decodedId + 1) decodedId)

/-- The names `_query_uuids` gives to applications. -/
def appName (deviceType : ℕ) : String :=
  if deviceType = klipperSetNodeCmd then "Klipper"
  else if deviceType = canbusCmdSetNodeid then "Katapult"
  else "Unknown"

/-- One round of the loop of `_query_uuids`, on one response. -/
def queryStep (uuids : List ℕ) (resp : List Byte) : List ℕ :=
  if resp.length < 7 ∨ (resp.getD 0 0).toNat ≠ canbusRespNeedNodeid then uuids
  else
    let app := if 7 < resp.length then appName (resp.getD 7 0).toNat else "Unknown"
    let data := (resp.drop 1).take 6
    let uuid := (data.zipIdx.map fun vi => vi.1.toNat <<< ((5 - vi.2) * 8)).sum
    if uuid ∉ uuids ∧ app = "Katapult" then uuids ++ [uuid] else uuids

/-- What the admin node of the tool receives: the data of the messages on its id. -/
def adminResponses (msgs : List CanbusMsg) : List (List Byte) :=
  (msgs.filter fun msg => msg.id = BitVec.ofNat 32 canbusIdAdminResp).map fun msg =>
    msg.data.take msg.dlc.toNat

/-- `CanSocket._query_uuids`, given what comes back. -/
def queryUuids (msgs : List CanbusMsg) : List ℕ := (adminResponses msgs).foldl queryStep []

/-- The dictionary of a new `CanSocket`. -/
def initNodes : List (ℕ × ℕ) := [(canbusIdAdminResp, canbusIdAdmin)]

/-- The device accepts the node id it is sent, and both sides then use the same two ids. -/
def AddressesAgree (nodes : List (ℕ × ℕ)) (uuid : ℕ) (c : CanData) : Prop :=
  ∃ msgs node nodes', setNodeId nodes uuid = some (msgs, node, nodes') ∧
    (canProcess c msgs).1.assignedId ≠ 0 ∧
    (canProcess c msgs).1.assignedId.toNat = node ∧
    nodes'.lookup ((canProcess c msgs).1.assignedId.toNat + 1) = some node

/-- The device is reported as a bootloader node. -/
def Reported (uuid : ℕ) (c : CanData) : Prop :=
  uuid ∈ queryUuids
    (canProcess c (send canbusIdAdmin [BitVec.ofNat 8 canbusCmdQueryUnassigned])).2

/-- A short payload is a single packet. -/
theorem send_of_short {canId : ℕ} {payload : List Byte} (hid : canId ≤ 0x7FF) (hne : payload ≠ [])
    (hlen : payload.length ≤ 8) : send canId payload = [packet canId payload] := by
  rw [send, if_neg hid.not_gt, if_neg hne, sendPayload, if_pos hlen]

/-- **The short ids the tool asks for.** The assignment is a single admin message whose last
byte is at least 128. -/
theorem setNodeId_shortId {nodes nodes' : List (ℕ × ℕ)} {uuid node : ℕ} {msgs : List CanbusMsg}
    (h : setNodeId nodes uuid = some (msgs, node, nodes')) :
    ∃ msg, msgs = [msg] ∧ msg.id = Terraboot.canbusIdAdmin ∧
      msg.data.getD 0 0 = canbusCmdSetCanbootNodeid ∧ 128 ≤ (msg.data.getD 7 0).toNat := by
  obtain ⟨plist, hplist⟩ : ∃ plist, canbusCmdSetNodeid :: uuidBytes uuid
      ++ [nodes.length + canbusNodeidOffset] = plist := ⟨_, rfl⟩
  have hlen : (plist.map (BitVec.ofNat 8)).length = 8 := by
    rw [← hplist]
    rfl
  have hsend : send canbusIdAdmin (plist.map (BitVec.ofNat 8)) =
      [packet canbusIdAdmin (plist.map (BitVec.ofNat 8))] :=
    send_of_short (by decide) (List.ne_nil_of_length_pos (by omega)) hlen.le
  rw [setNodeId] at h
  dsimp only at h
  rw [hplist, toBytes] at h
  split_ifs at h with hbytes
  obtain ⟨rfl, -⟩ := Prod.mk.inj (Option.some.inj h)
  have hid : nodes.length + canbusNodeidOffset < 256 := by
    refine hbytes _ ?_
    rw [← hplist]
    exact List.mem_append_right _ (List.mem_singleton_self _)
  have hlast : ((packet canbusIdAdmin (plist.map (BitVec.ofNat 8))).data.getD 7 0).toNat =
      nodes.length + canbusNodeidOffset := by
    have hbyte : (packet canbusIdAdmin (plist.map (BitVec.ofNat 8))).data.getD 7 0 =
        BitVec.ofNat 8 (nodes.length + canbusNodeidOffset) := by
      rw [← hplist]
      rfl
    rw [hbyte, BitVec.toNat_ofNat, Nat.mod_eq_of_lt hid]
  refine ⟨_, hsend, rfl, ?_, ?_⟩
  · rw [← hplist]
    rfl
  · rw [hlast]
    exact Nat.le_add_left _ _

/-- An answer with the device type of this firmware is never taken for a bootloader node. -/
theorem queryUuids_needNodeid (c : CanData) : queryUuids [needNodeid c] = [] := by
  obtain ⟨id, ⟨u, hu⟩, filter⟩ := c
  obtain ⟨u₀, u₁, u₂, u₃, u₄, u₅, rfl⟩ : ∃ u₀ u₁ u₂ u₃ u₄ u₅, u = [u₀, u₁, u₂, u₃, u₄, u₅] := by
    match u, hu with
    | [u₀, u₁, u₂, u₃, u₄, u₅], _ => exact ⟨u₀, u₁, u₂, u₃, u₄, u₅, rfl⟩
  have hresp : adminResponses [needNodeid ⟨id, ⟨[u₀, u₁, u₂, u₃, u₄, u₅], hu⟩, filter⟩] =
      [[0x20, u₀, u₁, u₂, u₃, u₄, u₅, 254]] := rfl
  have happ : appName 254 ≠ "Katapult" := by decide
  have hhead : ¬((8 : ℕ) < 7 ∨ 0x20 ≠ canbusRespNeedNodeid) := by decide
  rw [queryUuids, hresp, List.foldl_cons, List.foldl_nil, queryStep]
  exact (if_neg hhead).trans (if_neg fun h => happ h.2)

/-- **Host and device never agree.** Whatever UUID the tool is given and however many nodes
it has registered: `_set_node_id` raises or sends a short id that an unassigned device
ignores, and such a device is not among what `_query_uuids` reports. -/
theorem addresses_never_agree {c : CanData} (hc : c.assignedId = 0) (nodes : List (ℕ × ℕ))
    (uuid : ℕ) : ¬AddressesAgree nodes uuid c ∧ ¬Reported uuid c := by
  constructor
  · rintro ⟨msgs, node, nodes', hset, haccept, -, -⟩
    obtain ⟨msg, rfl, hid, hcmd, hshort⟩ := setNodeId_shortId hset
    have hignored : canProcessAdmin c msg = (c, []) := by
      have hquery : canbusCmdSetCanbootNodeid ≠ Terraboot.canbusCmdQueryUnassigned := by decide
      rw [canProcessAdmin, hcmd, if_neg hquery, if_pos rfl,
        canProcessSetCanbootNodeid_of_out_of_range c (by omega), ite_self]
    rw [canProcess_singleton c hid, hignored] at haccept
    exact haccept hc
  · intro hreported
    have hquery : (canProcess c (send canbusIdAdmin
        [BitVec.ofNat 8 canbusCmdQueryUnassigned])).2 = [needNodeid c] := by
      have hcmd : (packet canbusIdAdmin [BitVec.ofNat 8 canbusCmdQueryUnassigned]).data.getD 0 0 =
          Terraboot.canbusCmdQueryUnassigned := rfl
      rw [send_of_short (by decide) (by decide) (by decide), canProcess_singleton c rfl,
        canProcessAdmin, if_neg (by decide), if_pos hcmd, canProcessQueryUnassigned,
        if_neg (not_not.mpr hc)]
    rw [Reported, hquery, queryUuids_needNodeid] at hreported
    exact absurd hreported List.not_mem_nil

/-- The addressing fails on a fresh board and a tool that has not registered a node. -/
theorem addresses_never_agree_steinzeit :
    ¬AddressesAgree initNodes 0x11aabbccddee ⟨0, steinzeitDevice.uuid, 0⟩ ∧
      ¬Reported 0x11aabbccddee ⟨0, steinzeitDevice.uuid, 0⟩ :=
  addresses_never_agree rfl _ _

/-- A fresh tool addresses the device with this UUID as node 129 and then sends to 0x202
and listens on 0x203; the device stays unassigned. Asked for unassigned devices, the tool
reports none although the device has answered. -/
theorem addresses_disagree :
    (∃ msg, setNodeId initNodes 0x11aabbccddee =
        some ([msg], 0x202, [(0x3f1, 0x3f0), (0x203, 0x202)]) ∧
      canProcess ⟨0, steinzeitDevice.uuid, 0⟩ [msg] = (⟨0, steinzeitDevice.uuid, 0⟩, [])) ∧
      queryUuids (canProcess ⟨0, steinzeitDevice.uuid, 0⟩
        [packet canbusIdAdmin [BitVec.ofNat 8 canbusCmdQueryUnassigned]]).2 = [] := by
  refine ⟨⟨packet canbusIdAdmin [0x11, 0x11, 0xaa, 0xbb, 0xcc, 0xdd, 0xee, 0x81], ?_, ?_⟩, ?_⟩
  · have hbytes : toBytes [0x11, 0x11, 0xaa, 0xbb, 0xcc, 0xdd, 0xee, 0x81] =
        some [0x11, 0x11, 0xaa, 0xbb, 0xcc, 0xdd, 0xee, 0x81] := by decide
    have hplist : canbusCmdSetNodeid :: uuidBytes 0x11aabbccddee
        ++ [initNodes.length + canbusNodeidOffset] =
        [0x11, 0x11, 0xaa, 0xbb, 0xcc, 0xdd, 0xee, 0x81] := by decide
    rw [setNodeId]
    dsimp only
    rw [hplist, hbytes]
    dsimp only
    rw [send_of_short (by decide) (by decide) (by decide)]
    rfl
  · decide
  · decide

end CanSocket

end Terraboot
