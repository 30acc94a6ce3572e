import UmnProjects.Osm.LoadGraph

/-!
Which documents `read_nodes` gets through. A repeated id is announced with the message that
the loop goes on, but the element is added all the same, and adding it throws.
-/
namespace UmnProjects.Osm

open Tables

namespace OsmParser

variable {K : Type} (num : Numerals K)

def boundNames : List String := ["minlat", "minlon", "maxlat", "maxlon"]

/-- The bounds and coordinates that are there are texts of numbers. -/
structure Numeric (doc : XmlDocument) : Prop where
  bounds : ∀ name ∈ boundNames, ∀ text,
    (doc.firstChild.child "bounds").attributeNamed name = some text → (num.stod text).isSome
  coordinates : ∀ wayNode ∈ doc.firstChild.childrenNamed "node", ∀ name ∈ ["lat", "lon"],
    ∀ text, wayNode.attributeNamed name = some text → (num.stod text).isSome

def Bounded (doc : XmlDocument) : Prop :=
  ∀ name ∈ boundNames, ((doc.firstChild.child "bounds").attributeNamed name).isSome

instance (doc : XmlDocument) : Decidable (Bounded doc) :=
  inferInstanceAs (Decidable (∀ name ∈ boundNames, _))

variable {num} in
theorem stod_of_read {text : String} {x : K} (h : num.read text = .ok x) :
    num.stod text = some x := by
  rw [Numerals.read] at h
  split at h
  · next hx => rw [hx, Except.ok.inj h]
  · cases h

variable {num} in
theorem parsable_of_numeric {doc : XmlDocument} (h : Numeric num doc) (hb : Bounded doc) :
    Parsable num doc := by
  refine ⟨fun name hname => ?_, fun wayNode hmem => ?_⟩
  · obtain ⟨text, htext⟩ := Option.isSome_iff_exists.mp (hb name hname)
    rw [value_eq htext]
    exact h.bounds name hname text htext
  · obtain ⟨hchild, hfields⟩ := List.mem_filter.mp hmem
    simp only [hasFields, Bool.and_eq_true, Option.isSome_iff_exists] at hfields
    obtain ⟨⟨_, ⟨lat, hlat⟩⟩, ⟨lon, hlon⟩⟩ := hfields
    rw [value_eq hlat, value_eq hlon]
    exact ⟨h.coordinates wayNode hchild "lat" (by simp) lat hlat,
      h.coordinates wayNode hchild "lon" (by simp) lon hlon⟩

variable [Field K]

/-- The middle of the bounds. -/
def Centered (doc : XmlDocument) (centerLat centerLon : K) : Prop :=
  let bounds := doc.firstChild.child "bounds"
  ∃ minlat minlon maxlat maxlon,
    num.stod (bounds.value "minlat") = some minlat ∧
    num.stod (bounds.value "minlon") = some minlon ∧
    num.stod (bounds.value "maxlat") = some maxlat ∧
    num.stod (bounds.value "maxlon") = some maxlon ∧
    centerLat = minlat + (maxlat - minlat) / (2 : ℕ) ∧
    centerLon = minlon + (maxlon - minlon) / (2 : ℕ)

/-- The place of an element. -/
def Placed (centerLat centerLon : K) (wayNode : XmlNode) (loc : Point3 K) : Prop :=
  ∃ latitude longitude,
    num.stod (wayNode.value "lat") = some latitude ∧
    num.stod (wayNode.value "lon") = some longitude ∧
    loc = ⟨getLon num latitude longitude centerLat centerLon, (264 : ℕ),
      -(latitude - centerLat) * (40008000 : ℕ) / (360 : ℕ)⟩

/-- One node for each id, at the place of the first element that has it. -/
structure ReadInto (doc : XmlDocument) (graph : OSMGraph K) : Prop where
  unique : graph.names.Nodup
  named : ∀ id, id ∈ graph.names ↔ id ∈ parsedIds doc
  placed : ∃ centerLat centerLon, Centered num doc centerLat centerLon ∧
    ∀ id wayNode, (wellFormedNodes doc).find? (fun e => e.value "id" == id) = some wayNode →
      ∃ loc, Placed num centerLat centerLon wayNode loc ∧ (id, loc) ∈ graph.places

variable {num} {doc : XmlDocument} {graph graph' : OSMGraph K} {wayNode : XmlNode}
  {centerLat centerLon : K}

/-! ### What has been read when no exception was thrown -/

/-- An element that has been read, with what it added. -/
theorem places_readNode (h : readNode num centerLat centerLon graph wayNode = .ok graph') :
    if hasFields wayNode then
      ∃ loc, Placed num centerLat centerLon wayNode loc ∧
        graph'.places = graph.places ++ [(wayNode.value "id", loc)]
    else graph'.places = graph.places := by
  cases hfields : hasFields wayNode with
  | false =>
      rw [readNode_skip hfields] at h
      cases h
      exact rfl
  | true =>
      rw [if_pos rfl]
      unfold readNode at h
      split at h
      · case h_1 id lat lon hid hlat hlon =>
          obtain ⟨latitude, hlatitude, h⟩ := of_bind_ok h
          obtain ⟨longitude, hlongitude, h⟩ := of_bind_ok h
          refine ⟨_, ⟨latitude, longitude, ?_, ?_, rfl⟩, ?_⟩
          · rw [value_eq hlat]
            exact stod_of_read hlatitude
          · rw [value_eq hlon]
            exact stod_of_read hlongitude
          · rw [value_eq hid]
            exact OSMGraph.places_addNode h
      · case h_2 hnone =>
          simp only [hasFields, Bool.and_eq_true, Option.isSome_iff_exists] at hfields
          obtain ⟨⟨⟨id, hid⟩, ⟨lat, hlat⟩⟩, ⟨lon, hlon⟩⟩ := hfields
          exact absurd hlon (hnone id lat lon hid hlat)

/-- The elements read so far and the nodes made of them. -/
def ReadSoFar (num : Numerals K) (centerLat centerLon : K) (done : List XmlNode)
    (graph : OSMGraph K) : Prop :=
  List.Forall₂ (fun wayNode p => p.1 = wayNode.value "id" ∧
    Placed num centerLat centerLon wayNode p.2) (done.filter hasFields) graph.places

theorem readSoFar_readNode {done : List XmlNode}
    (hdone : ReadSoFar num centerLat centerLon done graph)
    (h : readNode num centerLat centerLon graph wayNode = .ok graph') :
    ReadSoFar num centerLat centerLon (done ++ [wayNode]) graph' := by
  have hplaces := places_readNode h
  rw [ReadSoFar, List.filter_append]
  cases hfields : hasFields wayNode with
  | false =>
      rw [hfields] at hplaces
      rw [show graph'.places = graph.places from hplaces,
        List.filter_cons_of_neg (by simp [hfields]), List.filter_nil, List.append_nil]
      exact hdone
  | true =>
      rw [hfields, if_pos rfl] at hplaces
      obtain ⟨loc, hloc, hnew⟩ := hplaces
      rw [hnew, List.filter_cons_of_pos hfields, List.filter_nil]
      exact List.rel_append hdone (.cons ⟨rfl, hloc⟩ .nil)

theorem readSoFar_of_ok (h : readNodes num doc = .ok graph) :
    ∃ centerLat centerLon, Centered num doc centerLat centerLon ∧
      ReadSoFar num centerLat centerLon (doc.firstChild.childrenNamed "node") graph := by
  obtain ⟨minlat, hminlat, h⟩ := of_bind_ok h
  obtain ⟨minlon, hminlon, h⟩ := of_bind_ok h
  obtain ⟨maxlat, hmaxlat, h⟩ := of_bind_ok h
  obtain ⟨maxlon, hmaxlon, h⟩ := of_bind_ok h
  refine ⟨_, _, ⟨minlat, minlon, maxlat, maxlon, stod_of_read hminlat, stod_of_read hminlon,
    stod_of_read hmaxlat, stod_of_read hmaxlon, rfl, rfl⟩, ?_⟩
  have hstart : ReadSoFar num (minlat + (maxlat - minlat) / 2) (minlon + (maxlon - minlon) / 2)
      [] OSMGraph.empty := List.Forall₂.nil
  exact foldlM_of_ok (ReadSoFar num _ _) hstart
    (fun done wayNode graph graph' hdone hread => readSoFar_readNode hdone hread) h

theorem exists_of_forall₂ {A B : Type} {R : A → B → Prop} {as : List A} {bs : List B}
    (h : List.Forall₂ R as bs) {a : A} (ha : a ∈ as) : ∃ b ∈ bs, R a b := by
  induction h with
  | nil => cases ha
  | cons hab _ ih =>
      cases ha with
      | head => exact ⟨_, List.mem_cons_self, hab⟩
      | tail _ ha =>
          obtain ⟨b, hb, hrel⟩ := ih ha
          exact ⟨b, List.mem_cons_of_mem _ hb, hrel⟩

theorem ReadSoFar.names {done : List XmlNode} (h : ReadSoFar num centerLat centerLon done graph) :
    graph.names = (done.filter hasFields).map fun wayNode => wayNode.value "id" := by
  have hids : List.Forall₂ (fun wayNode p => wayNode.value "id" = p.1) (done.filter hasFields)
      graph.places := List.Forall₂.imp (fun _ _ hp => hp.1.symm) h
  have hmaps := List.forall₂_map_left_iff.mpr (List.forall₂_map_right_iff.mpr hids)
  rw [List.forall₂_eq_eq_eq] at hmaps
  rw [← OSMGraph.places_fst]
  exact hmaps.symm

/-- What the graph of a document that has been read through holds. -/
theorem readInto_of_ok (h : readNodes num doc = .ok graph) :
    ReadInto num doc graph ∧ (parsedIds doc).Nodup := by
  obtain ⟨centerLat, centerLon, hcentered, hread⟩ := readSoFar_of_ok h
  have hnames : graph.names = parsedIds doc := hread.names
  refine ⟨⟨graph.names_nodup, fun id => by rw [hnames], centerLat, centerLon, hcentered, ?_⟩, ?_⟩
  · intro id wayNode hfind
    obtain ⟨p, hp, hid, hplaced⟩ := exists_of_forall₂ hread (List.mem_of_find?_eq_some hfind)
    have hsame : wayNode.value "id" = id := by simpa using List.find?_some hfind
    refine ⟨p.2, hplaced, ?_⟩
    rw [← hsame, ← hid]
    exact hp
  · rw [← hnames]
    exact graph.names_nodup

/-! ### Which documents are read through -/

theorem bounded_of_centered (hempty : num.stod "" = none)
    (h : Centered num doc centerLat centerLon) : Bounded doc := by
  obtain ⟨_, _, _, _, hminlat, hminlon, hmaxlat, hmaxlon, _⟩ := h
  have hpresent : ∀ name x, num.stod ((doc.firstChild.child "bounds").value name) = some x →
      ((doc.firstChild.child "bounds").attributeNamed name).isSome := by
    intro name x hx
    cases hname : (doc.firstChild.child "bounds").attributeNamed name with
    | some text => rfl
    | none =>
        rw [XmlNode.value, hname, Option.getD_none, hempty] at hx
        cases hx
  intro name hname
  simp only [boundNames, List.mem_cons, List.not_mem_nil, or_false] at hname
  obtain rfl | rfl | rfl | rfl := hname
  · exact hpresent _ _ hminlat
  · exact hpresent _ _ hminlon
  · exact hpresent _ _ hmaxlat
  · exact hpresent _ _ hmaxlon

/-- The nodes of a document are read if and only if the bounds are there and no two elements
with id, lat and lon have the same id. -/
theorem readNodes_readInto_iff (num : Numerals K) (hempty : num.stod "" = none)
    (doc : XmlDocument) (h : Numeric num doc) :
    (∃ graph, readNodes num doc = .ok graph ∧ ReadInto num doc graph) ↔
      Bounded doc ∧ (parsedIds doc).Nodup := by
  constructor
  · intro hread
    obtain ⟨graph, hok, hinto⟩ := hread
    obtain ⟨_, _, hcentered, _⟩ := hinto.placed
    exact ⟨bounded_of_centered hempty hcentered, (readInto_of_ok hok).2⟩
  · intro hdoc
    obtain ⟨graph, hok, _⟩ := readNodes_ok (parsable_of_numeric h hdoc.1) hdoc.2
    exact ⟨graph, hok, (readInto_of_ok hok).1⟩

theorem readNodes_readInto_crossing :
    ∃ graph, readNodes wholeNumerals crossing = .ok graph ∧
      ReadInto wholeNumerals crossing graph :=
  (readNodes_readInto_iff wholeNumerals (by decide) crossing
    ⟨by decide, by decide⟩).mpr ⟨by decide, by decide⟩

/-- The same node twice. -/
def repeated : XmlDocument where
  children := [.mk "osm" [] [
    .mk "bounds" [("minlat", "-1"), ("minlon", "-1"), ("maxlat", "1"), ("maxlon", "1")] [],
    nodeElement "a" "0" "1", nodeElement "a" "0" "1"]]

theorem readNodes_repeated :
    Numeric wholeNumerals repeated ∧ Bounded repeated ∧
      readNodes wholeNumerals repeated = .error (.invalidArgument "a") ∧
      ¬ ∃ graph, readNodes wholeNumerals repeated = .ok graph ∧
        ReadInto wholeNumerals repeated graph := by
  have herror : readNodes wholeNumerals repeated = .error (.invalidArgument "a") := by rfl
  refine ⟨⟨by decide, by decide⟩, by decide, herror, fun h => ?_⟩
  obtain ⟨graph, hok, _⟩ := h
  rw [herror] at hok
  cases hok

end OsmParser

end UmnProjects.Osm
