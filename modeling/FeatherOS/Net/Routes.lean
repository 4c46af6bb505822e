import FeatherOS.Library.Run
import FeatherOS.Library.Shifting
import FeatherOS.Net.Socket

/-
  The routing table of `kernel/net/tcpip.c`.

  Its entries are a bounded list of routes, except that a
  route that is added without a gateway gets the one that was
  left in its slot.

  Key definitions include:
    * `Route`
    * `RouteTable`
    * `routeAdd`
    * `routeDel`
    * `routeLookupGateway`
    * `RoutesGood`

  Key theorems include:
    * `routeDel_entries`
    * `routeStep_decided`
    * `routeRun_refines_iff`
-/

namespace FeatherOS

open CyclicBuffer (front)

--------------------
-- The Table
--------------------

/- route_t -/
structure Route where
  network : IpAddr
  netmask : IpAddr
  gateway : IpAddr
  dev : Option Addr
  metric : Int

structure RouteTable where
  routes : Nat → Route
  routeCount : Nat

/- MAX_ROUTES -/
def maxRoutes : Nat := 32

def RouteTable.entries (t : RouteTable) : List Route :=
  front t.routes t.routeCount

def routeInit : RouteTable where
  routes := fun _ => ⟨ipAny, ipAny, ipAny, none, 0⟩
  routeCount := 0

/- The gateway is only written if there is one. -/
def Route.overwrite
    (route : Route)
    (network netmask : IpAddr)
    (gateway : Option IpAddr)
    (dev : Option Addr)
    (metric : Int) :
    Route where
  network := network
  netmask := netmask
  gateway := gateway.getD route.gateway
  dev := dev
  metric := metric

def routeAdd
    (t : RouteTable)
    (network netmask gateway : Option IpAddr)
    (dev : Option Addr)
    (metric : Int) :
    Int × RouteTable :=
  match network, netmask with
  | some network, some netmask =>
      if t.routeCount ≥ maxRoutes then
        (-1, t)
      else
        (0,
          { routes :=
              Function.update t.routes t.routeCount
                ((t.routes t.routeCount).overwrite network
                  netmask gateway dev metric)
            routeCount := t.routeCount + 1 })
  | _, _ => (-1, t)

/- ip_addr_equal, of an address in the table -/
def ipAddrEqual
    (a : IpAddr)
    (b : Option IpAddr) : Bool :=
  b = some a

def Route.named
    (network netmask : Option IpAddr)
    (route : Route) : Bool :=
  ipAddrEqual route.network network &&
    ipAddrEqual route.netmask netmask

/- The first route found is taken out. -/
def routeDel
    (t : RouteTable)
    (network netmask : Option IpAddr) :
    Int × RouteTable :=
  match t.entries.findIdx? (Route.named network netmask) with
  | none => (-1, t)
  | some i =>
      (0,
        { routes :=
            Shifting.shift t.routes i (t.routeCount - 1 - i)
          routeCount := t.routeCount - 1 })

--------------------
-- Looking Up
--------------------

/- The loop that counts bits, which ends after eight turns -/
def countBits
    (len : Nat) :
    Nat → U8 → Nat
  | 0, _ => len
  | turns + 1, mask =>
      if mask = 0#8 then len
      else
        countBits (len + (mask &&& 1#8).toNat) turns (mask >>> 1)

def Route.prefixLen (route : Route) : Nat :=
  route.netmask.addr.toList.foldl
    (fun len mask => countBits len 8 mask) 0

def Route.covers
    (route : Route)
    (addr : IpAddr) : Prop :=
  ∀ j : Fin 4,
    addr.addr.get j &&& route.netmask.addr.get j =
      route.network.addr.get j

instance
    (route : Route)
    (addr : IpAddr) :
    Decidable (route.covers addr) :=
  inferInstanceAs
    (Decidable
      (∀ j : Fin 4,
        addr.addr.get j &&& route.netmask.addr.get j =
          route.network.addr.get j))

/- The best route so far, and the length of its prefix -/
def routeSearch
    (t : RouteTable)
    (addr : IpAddr) :
    Nat → Option Nat × Int
  | 0 => (none, -1)
  | i + 1 =>
      let best := routeSearch t addr i
      let len := (t.routes i).prefixLen
      if (t.routes i).covers addr ∧ len > best.2 then
        (some i, len)
      else
        best

/- The place of the route in the table -/
def routeLookup
    (t : RouteTable)
    (addr : Option IpAddr) :
    Option Nat :=
  addr.bind fun addr => (routeSearch t addr t.routeCount).1

/- What is stored for the caller, or nothing on -1 -/
def routeLookupGateway
    (t : RouteTable)
    (addr : Option IpAddr) :
    Option (IpAddr × Option Addr) :=
  (routeLookup t addr).map fun i =>
    ((t.routes i).gateway, (t.routes i).dev)

--------------------
-- The List
--------------------

/- A route as it was meant to be added -/
def Route.added
    (network netmask : IpAddr)
    (gateway : Option IpAddr)
    (dev : Option Addr)
    (metric : Int) :
    Route :=
  ⟨network, netmask, gateway.getD ipAny, dev, metric⟩

inductive RouteCall where
  | add
      (network netmask gateway : Option IpAddr)
      (dev : Option Addr)
      (metric : Int)
  | del (network netmask : Option IpAddr)

/- What a call does to the list of routes -/
def routesAfter
    (list : List Route) :
    RouteCall → List Route
  | .add (some network) (some netmask) gateway dev metric =>
      if list.length < maxRoutes then
        list ++ [.added network netmask gateway dev metric]
      else
        list
  | .add _ _ _ _ _ => list
  | .del network netmask =>
      list.eraseP (Route.named network netmask)

def routeCall
    (t : RouteTable) :
    RouteCall → RouteTable
  | .add network netmask gateway dev metric =>
      (routeAdd t network netmask gateway dev metric).2
  | .del network netmask => (routeDel t network netmask).2

/- The table, and the list that it should be -/
structure RouteState where
  table : RouteTable
  list : List Route

def routeStep
    (s : RouteState)
    (call : RouteCall)
    (t : RouteState) : Prop :=
  t = ⟨routeCall s.table call, routesAfter s.list call⟩

/-
  The entries are the list, and the gateway that is reported
  is the one that the chosen route was added with.
-/
structure RoutesGood (s : RouteState) : Prop where
  entries : s.table.entries = s.list
  reported : ∀ addr i, routeLookup s.table addr = some i →
    ∃ route, s.list[i]? = some route ∧
      routeLookupGateway s.table addr =
        some (route.gateway, route.dev)

/-
  A route that is added without a gateway gets a slot that
  holds none.
-/
def RouteCallOk
    (s : RouteState) :
    RouteCall → Prop
  | .add (some _) (some _) none _ _ =>
      s.table.routeCount < maxRoutes →
        (s.table.routes s.table.routeCount).gateway = ipAny
  | _ => True

--------------------
-- One Call
--------------------

section Table

variable {t : RouteTable}

theorem length_entries :
    t.entries.length = t.routeCount :=
  CyclicBuffer.length_front _ _

theorem routeDel_entries
    (network netmask : Option IpAddr) :
    (routeDel t network netmask).2.entries =
      t.entries.eraseP (Route.named network netmask) := by
  unfold routeDel
  split
  next hNone =>
    rw [List.eraseP_eq_eraseIdx, hNone]
  next i hFind => exact Shifting.front_erase t.routes hFind

/- A route that has room is put behind the others. -/
theorem routeAdd_entries
    (network netmask : IpAddr)
    (gateway : Option IpAddr)
    (dev : Option Addr)
    (metric : Int) :
    (routeAdd t (some network) (some netmask) gateway dev
        metric).2.entries =
      if t.routeCount < maxRoutes then
        t.entries ++
          [(t.routes t.routeCount).overwrite network netmask
            gateway dev metric]
      else
        t.entries := by
  by_cases hRoom : t.routeCount < maxRoutes
  · have hNot : ¬ t.routeCount ≥ maxRoutes := by omega
    have hOld : front
          (Function.update t.routes t.routeCount
            ((t.routes t.routeCount).overwrite network netmask
              gateway dev metric))
          t.routeCount =
        front t.routes t.routeCount :=
      CyclicBuffer.front_congr fun i hi =>
        Function.update_of_ne (Nat.ne_of_lt hi) ..
    rw [if_pos hRoom]
    simp only [routeAdd, if_neg hNot, RouteTable.entries]
    rw [CyclicBuffer.front_add, hOld]
    simp [front]
  · have hFull : t.routeCount ≥ maxRoutes := by omega
    simp only [routeAdd, if_pos hFull, if_neg hRoom]

/- The search stays inside the table. -/
theorem routeSearch_lt
    (addr : IpAddr)
    {n i : Nat}
    (hBest : (routeSearch t addr n).1 = some i) :
    i < n := by
  induction n with
  | zero => cases hBest
  | succ n ih =>
      rw [routeSearch] at hBest
      split at hBest
      next =>
        cases hBest
        exact Nat.lt_succ_self _
      next => exact Nat.lt_succ_of_lt (ih hBest)

end Table

section Step

variable {s t : RouteState}
variable {call : RouteCall}

theorem routesGood_iff :
    RoutesGood s ↔ s.table.entries = s.list := by
  refine ⟨RoutesGood.entries, fun hEntries => ⟨hEntries, ?_⟩⟩
  intro addr i hLookup
  refine ⟨s.table.routes i, ?_, ?_⟩
  · cases addr with
    | none => cases hLookup
    | some addr =>
        have hi := routeSearch_lt addr hLookup
        rw [← hEntries, RouteTable.entries, front,
          List.getElem?_map, List.getElem?_range hi]
        rfl
  · rw [routeLookupGateway, hLookup]
    rfl

/- An added route is the right one if its gateway is. -/
theorem overwrite_eq_added_iff
    (route : Route)
    (network netmask : IpAddr)
    (gateway : Option IpAddr)
    (dev : Option Addr)
    (metric : Int) :
    route.overwrite network netmask gateway dev metric =
        .added network netmask gateway dev metric ↔
      (gateway = none → route.gateway = ipAny) := by
  cases gateway with
  | none => simp [Route.overwrite, Route.added]
  | some gateway => simp [Route.overwrite, Route.added]

theorem routeStep_decided
    (hGood : RoutesGood s)
    (hStep : routeStep s call t) :
    RoutesGood t ↔ RouteCallOk s call := by
  have hEntries := hGood.entries
  have hLength : s.list.length = s.table.routeCount := by
    rw [← hEntries, length_entries]
  subst hStep
  rw [routesGood_iff]
  cases call with
  | add network netmask gateway dev metric =>
      cases network with
      | none => exact iff_of_true hEntries trivial
      | some network =>
          cases netmask with
          | none => exact iff_of_true hEntries trivial
          | some netmask =>
              simp only [routeCall, routeAdd_entries, routesAfter,
                hLength]
              by_cases hRoom : s.table.routeCount < maxRoutes
              · rw [if_pos hRoom, if_pos hRoom, hEntries,
                  List.append_right_inj, List.singleton_inj,
                  overwrite_eq_added_iff]
                cases gateway with
                | none => simp [RouteCallOk, hRoom]
                | some gateway => simp [RouteCallOk]
              · rw [if_neg hRoom, if_neg hRoom]
                refine iff_of_true hEntries ?_
                cases gateway with
                | none => exact fun h => absurd h hRoom
                | some gateway => trivial
  | del network netmask =>
      refine iff_of_true ?_ trivial
      simp only [routeCall, routeDel_entries, routesAfter,
        hEntries]

end Step

/- What `route_init` leaves -/
def routesBooted : RouteState :=
  ⟨routeInit, []⟩

/-
  The table is the list of routes in every state of a run if
  and only if each route that is added without a gateway gets
  a slot without one.
-/
theorem routeRun_refines_iff
    {t : RouteState}
    {calls : List RouteCall} :
    Run (fun s call t => routeStep s call t ∧ RoutesGood t)
        routesBooted calls t ↔
      Run (Guarded RouteCallOk routeStep) routesBooted calls
        t := by
  apply Run.guarded_iff RoutesGood
  · intro s call t hGood hOk hStep
    exact (routeStep_decided hGood hStep).mpr hOk
  · intro s call t hGood hStep
    exact routeStep_decided hGood hStep
  · exact routesGood_iff.mpr rfl

/- 10.0.0.0, with 10.0.0.1 as its gateway at first -/
def tenNet : IpAddr := ⟨#v[10, 0, 0, 0]⟩
def tenGateway : IpAddr := ⟨#v[10, 0, 0, 1]⟩
def classA : IpAddr := ⟨#v[255, 0, 0, 0]⟩

/- The new route has the gateway of the one deleted. -/
theorem stale_gateway :
    ¬ ∀ (t : RouteState) (calls : List RouteCall),
      Run routeStep routesBooted calls t → RoutesGood t := by
  intro hAll
  have hGood := hAll _
    [.add (some tenNet) (some classA) (some tenGateway) none 0,
      .del (some tenNet) (some classA),
      .add (some tenNet) (some classA) none none 0]
    (.cons rfl (.cons rfl (.cons rfl (.nil _))))
  have hGateway :=
    congrArg (List.map Route.gateway) hGood.entries
  revert hGateway
  decide +kernel

end FeatherOS
