import Mathlib.Data.List.Basic

/-!
# Entries of a route node in zebra

A route node of zebra has a list of entries, the newest first. An entry that is deleted gets the
flag `RIB_ENTRY_REMOVED` and is unlinked when the node is processed; the others are live. An entry
that a client adds replaces the first live entry of its type. A client that deletes a route names
its next hop, and the first live entry of the type that has this next hop, or is resolved through
it, is deleted (`liveOf_ribDeleteIpv4`). If there is none, nothing is deleted.
-/

set_option autoImplicit false

namespace Quagga.Zebra

/-- `ZEBRA_ROUTE_CONNECT`. -/
def zebraRouteConnect : Nat := 2

/-- `struct rib` with one IPv4 next hop: the gateway, and the one that it was resolved to. -/
structure RibEntry where
  type : Nat
  removed : Bool
  gate : Nat
  rgate : Nat
  deriving DecidableEq

/-- An entry of the type that is not removed. -/
def RibEntry.live (type : Nat) (entry : RibEntry) : Bool := !entry.removed && entry.type = type

/-- The entries of a type. -/
def liveOf (type : Nat) (rn : List RibEntry) : List RibEntry := rn.filter (·.live type)

/-- `rib_delnode` at the first entry that a search finds. -/
def ribDelnode (found : RibEntry → Bool) : List RibEntry → List RibEntry
  | [] => []
  | entry :: rest =>
    if found entry then { entry with removed := true } :: rest
    else entry :: ribDelnode found rest

/-- `rib_add_ipv4_multipath`. -/
def ribAddIpv4Multipath (type gate : Nat) (rn : List RibEntry) : List RibEntry :=
  { type := type, removed := false, gate := gate, rgate := 0 } ::
    ribDelnode (fun entry => entry.live type && type ≠ zebraRouteConnect) rn

/-- `rib_delete_ipv4` for a route that is neither connected nor one of the kernel. -/
def ribDeleteIpv4 (type gate : Nat) (rn : List RibEntry) : List RibEntry :=
  ribDelnode (fun entry => entry.live type && (entry.gate = gate || entry.rgate = gate)) rn

/-- What happens to the node apart from the messages of one client: the routes of other types come
and go, and `rib_process` unlinks removed entries and resolves the next hops. -/
inductive Elsewhere where
  | link (entry : RibEntry)
  | delnode (chosen : RibEntry → Bool)
  | process (unlinked : RibEntry → Bool) (resolved : RibEntry → Nat)

/-- The node after something happened elsewhere, for the client that sends routes of this type. -/
def Elsewhere.apply (type : Nat) (rn : List RibEntry) : Elsewhere → List RibEntry
  | .link entry => if entry.type = type then rn else entry :: rn
  | .delnode chosen =>
    rn.map fun entry =>
      if chosen entry && entry.type ≠ type then { entry with removed := true } else entry
  | .process unlinked resolved =>
    (rn.filter fun entry => !(entry.removed && unlinked entry)).map fun entry =>
      { entry with rgate := resolved entry }

/-! ## Live entries -/

variable {type : Nat}

theorem liveOf_cons (entry : RibEntry) (rest : List RibEntry) :
    liveOf type (entry :: rest) =
      if entry.live type then entry :: liveOf type rest else liveOf type rest :=
  List.filter_cons

theorem liveOf_ribDelnode (test : RibEntry → Bool) (rn : List RibEntry) :
    liveOf type (ribDelnode (fun entry => entry.live type && test entry) rn) =
      (liveOf type rn).eraseP test := by
  induction rn with
  | nil => rfl
  | cons entry rest ih =>
    rw [ribDelnode, liveOf_cons entry rest]
    cases live : entry.live type with
    | false => simp [liveOf_cons, live, ih]
    | true =>
      cases found : test entry with
      | false => simp [liveOf_cons, live, found, ih]
      | true => simp [liveOf_cons, RibEntry.live, found]

theorem liveOf_ribDeleteIpv4 (gate : Nat) (rn : List RibEntry) :
    liveOf type (ribDeleteIpv4 type gate rn) =
      (liveOf type rn).eraseP fun entry => entry.gate = gate || entry.rgate = gate :=
  liveOf_ribDelnode _ rn

theorem liveOf_ribAddIpv4Multipath (client : type ≠ zebraRouteConnect) (gate : Nat)
    (rn : List RibEntry) :
    liveOf type (ribAddIpv4Multipath type gate rn) =
      { type := type, removed := false, gate := gate, rgate := 0 } :: (liveOf type rn).tail := by
  have first : (liveOf type rn).eraseP (fun _ => decide (type ≠ zebraRouteConnect)) =
      (liveOf type rn).tail := by
    cases liveOf type rn with
    | nil => rfl
    | cons entry rest => simp [client]
  rw [ribAddIpv4Multipath, liveOf_cons, liveOf_ribDelnode, first]
  simp [RibEntry.live]

theorem gates_map (change : RibEntry → RibEntry)
    (gate_eq : ∀ entry, (change entry).gate = entry.gate)
    (live_eq : ∀ entry, (change entry).live type = entry.live type) (rn : List RibEntry) :
    (liveOf type (rn.map change)).map RibEntry.gate = (liveOf type rn).map RibEntry.gate := by
  have lives : (RibEntry.live type) ∘ change = RibEntry.live type := funext live_eq
  have gates : RibEntry.gate ∘ change = RibEntry.gate := funext gate_eq
  rw [liveOf, List.filter_map, List.map_map, lives, gates, liveOf]

/-- Elsewhere the live entries of the client keep their next hops. -/
theorem Elsewhere.gates_apply (event : Elsewhere) (rn : List RibEntry) :
    (liveOf type (event.apply type rn)).map RibEntry.gate = (liveOf type rn).map RibEntry.gate := by
  cases event with
  | link entry =>
    by_cases same : entry.type = type
    · rw [Elsewhere.apply, if_pos same]
    · have dead : entry.live type = false := by simp [RibEntry.live, same]
      rw [Elsewhere.apply, if_neg same, liveOf_cons, dead, if_neg Bool.false_ne_true]
  | delnode chosen =>
    refine gates_map _ (fun entry => ?_) (fun entry => ?_) rn
    · split_ifs <;> rfl
    · by_cases same : entry.type = type
      · simp [same]
      · split_ifs <;> simp [RibEntry.live, same]
  | process unlinked resolved =>
    rw [Elsewhere.apply, gates_map (fun entry => { entry with rgate := resolved entry })
      (fun _ => rfl) (fun _ => rfl)]
    congr 1
    rw [liveOf, List.filter_filter]
    refine List.filter_congr fun entry _ => ?_
    cases removed : entry.removed <;> simp [RibEntry.live, removed]

end Quagga.Zebra
