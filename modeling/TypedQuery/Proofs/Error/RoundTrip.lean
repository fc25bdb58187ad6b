import TypedQuery.Error.Failure
/-!
Errors that are encoded and decoded again.  An encoding leaves out what is absent, and nothing in it
names the kind of a path segment.  Still each error comes back as it was, because the shapes of the
members tell apart what their absence and their emptiness mean: `responseError_roundTrip`.
-/

namespace TypedQuery

/-- A list is mapped throughout just when each of its items is mapped. -/
theorem mapM_eq_some {α β : Type} {f : α → Option β} {items : List α} {results : List β} :
    items.mapM f = some results ↔ items.map f = results.map some := by
  induction items generalizing results with
  | nil => cases results <;> simp
  | cons item rest ih =>
    rw [List.mapM_cons, List.map_cons]
    cases results with
    | nil => cases f item <;> cases rest.mapM f <;> simp
    | cons result others =>
      rw [List.map_cons, List.cons.injEq, ← ih]
      cases f item <;> cases rest.mapM f <;> simp

theorem mapM_map_eq_some {α β : Type} {encode : α → β} {decode : β → Option α} {items : List α}
    (h : ∀ item ∈ items, decode (encode item) = some item) :
    (items.map encode).mapM decode = some items := by
  rw [mapM_eq_some, List.map_map]
  exact List.map_congr_left h

theorem exists_of_mapM_eq_some {α β : Type} {f : α → Option β} {items : List α}
    {results : List β} (h : items.mapM f = some results) {result : β} (hresult : result ∈ results) :
    ∃ item ∈ items, f item = some result := by
  rw [mapM_eq_some] at h
  have hmem : some result ∈ items.map f := by
    rw [h]
    exact List.mem_map_of_mem hresult
  exact List.mem_map.1 hmem

/-! ## Counts and indices -/

namespace Json

/-- The number has 64 bits, as counts and indices do. -/
def FitsNat (n : Nat) : Prop := n ≤ 18446744073709551615

theorem nat?_ofNat {n : Nat} (h : FitsNat n) : (ofNat n).nat? = some n := by
  unfold FitsNat at h
  rw [ofNat, nat?, if_pos (by omega), Int.toNat_natCast]

theorem fitsNat_of_nat? {value : Json} {n : Nat} (h : value.nat? = some n) : FitsNat n := by
  cases value with
  | int m =>
    rw [nat?] at h
    split at h
    · next hm =>
      obtain rfl := Option.some.inj h
      unfold FitsNat
      omega
    · cases h
  | _ => cases h

end Json

namespace Location

/-- Lines and columns have 64 bits. -/
def Fits (l : Location) : Prop := Json.FitsNat l.line ∧ Json.FitsNat l.column

theorem ofJson?_toJson {l : Location} (h : l.Fits) : ofJson? l.toJson = some l := by
  show (do
    let line ← (Json.ofNat l.line).nat?
    let column ← (Json.ofNat l.column).nat?
    return { line, column }) = some l
  rw [Json.nat?_ofNat h.1, Json.nat?_ofNat h.2]
  rfl

theorem fits_of_ofJson? {value : Json} {l : Location} (h : ofJson? value = some l) : l.Fits := by
  unfold ofJson? at h
  split at h
  · simp only [Option.bind_eq_bind, Option.bind_eq_some_iff] at h
    obtain ⟨line, -, m, hm, column, -, n, hn, hl⟩ := h
    obtain rfl := Option.some.inj hl
    exact ⟨Json.fitsNat_of_nat? hm, Json.fitsNat_of_nat? hn⟩
  · simp only [Option.bind_eq_bind, Option.bind_eq_some_iff] at h
    obtain ⟨m, hm, n, hn, hl⟩ := h
    obtain rfl := Option.some.inj hl
    exact ⟨Json.fitsNat_of_nat? hm, Json.fitsNat_of_nat? hn⟩
  · cases h

end Location

namespace PathSegment

/-- Indices have 64 bits, and keys have any length. -/
def Fits : PathSegment → Prop
  | key _ => True
  | index n => Json.FitsNat n

theorem ofJson?_toJson {segment : PathSegment} (h : segment.Fits) :
    ofJson? segment.toJson = some segment := by
  cases segment with
  | key name => rfl
  | index n =>
    show (Json.ofNat n).nat?.map index = some (index n)
    rw [Json.nat?_ofNat h]
    rfl

theorem fits_of_ofJson? {value : Json} {segment : PathSegment}
    (h : ofJson? value = some segment) : segment.Fits := by
  unfold ofJson? at h
  split at h
  · obtain rfl := Option.some.inj h
    trivial
  · obtain ⟨n, hn, rfl⟩ := Option.map_eq_some_iff.1 h
    exact Json.fitsNat_of_nat? hn

end PathSegment

theorem Path.ofJson?_toJson {path : Path} (h : ∀ segment ∈ path, segment.Fits) :
    ofJson? path.toJson = some path :=
  mapM_map_eq_some fun segment hsegment => PathSegment.ofJson?_toJson (h segment hsegment)

theorem Path.fits_of_ofJson? {value : Json} {path : Path} (h : ofJson? value = some path) :
    ∀ segment ∈ path, segment.Fits := by
  intro segment hsegment
  cases value with
  | arr items =>
    obtain ⟨item, -, hitem⟩ := exists_of_mapM_eq_some h hsegment
    exact PathSegment.fits_of_ofJson? hitem
  | _ => cases h

namespace ResponseError

/-- All positions and indices of the error have 64 bits. -/
structure Fits (e : ResponseError) : Prop where
  locations : ∀ l ∈ e.locations, l.Fits
  path : ∀ path, e.path = some path → ∀ segment ∈ path, segment.Fits

/-! ## Members -/

/-- Of an encoding, just the members that were there to be encoded are decoded. -/
theorem ofJson?_toJson_eq (e : ResponseError) :
    ofJson? e.toJson = ofMembers? (.str e.message)
      (if e.locations.isEmpty then none else some (.arr (e.locations.map Location.toJson)))
      (e.path.map Path.toJson) (e.extensions.map Json.obj) := by
  obtain ⟨message, locations, path, extensions⟩ := e
  cases locations <;> cases path <;> cases extensions <;> rfl

theorem locationsOfJson?_of_fits {locations : List Location} (h : ∀ l ∈ locations, l.Fits) :
    locationsOfJson? (.arr (locations.map Location.toJson)) = some locations :=
  mapM_map_eq_some fun l hl => Location.ofJson?_toJson (h l hl)

theorem ofJson?_toJson {e : ResponseError} (h : e.Fits) : ofJson? e.toJson = some e := by
  obtain ⟨message, locations, path, extensions⟩ := e
  -- locations that are left out are read as none at all
  have hlocations : ((if locations.isEmpty then none
      else some (.arr (locations.map Location.toJson))).map locationsOfJson?).getD (some []) =
        some locations := by
    cases locations with
    | nil => rfl
    | cons first rest => exact locationsOfJson?_of_fits h.locations
  -- the empty path is an empty list, which is not null
  have hpath : ((path.map Path.toJson).map pathOfJson?).getD (some none) = some path := by
    cases path with
    | none => rfl
    | some path =>
      show (Path.ofJson? path.toJson).map some = some (some path)
      rw [Path.ofJson?_toJson (h.path path rfl)]
      rfl
  have hextensions : ((extensions.map Json.obj).map extensionsOfJson?).getD (some none) =
      some extensions := by
    cases extensions <;> rfl
  rw [ofJson?_toJson_eq, ofMembers?, hlocations, hpath, hextensions]
  rfl

theorem fits_of_ofMembers? {message : Json} {locations path extensions : Option Json}
    {e : ResponseError} (h : ofMembers? message locations path extensions = some e) : e.Fits := by
  simp only [ofMembers?, Option.bind_eq_bind, Option.bind_eq_some_iff] at h
  obtain ⟨text, -, positions, hpositions, address, haddress, added, -, he⟩ := h
  obtain rfl := Option.some.inj he
  constructor
  · intro l hl
    cases locations with
    | none =>
      obtain rfl := Option.some.inj hpositions
      cases hl
    | some value =>
      cases value with
      | arr items =>
        obtain ⟨item, -, hitem⟩ := exists_of_mapM_eq_some hpositions hl
        exact Location.fits_of_ofJson? hitem
      | _ => cases hpositions
  · rintro found rfl
    cases path with
    | none => cases haddress
    | some value =>
      cases value with
      | arr items =>
        obtain ⟨decoded, hdecoded, hfound⟩ := Option.map_eq_some_iff.1 haddress
        obtain rfl := Option.some.inj hfound
        exact Path.fits_of_ofJson? hdecoded
      | _ => cases haddress

/-- The errors whose positions and indices have 64 bits are just those that values are decoded
to. -/
theorem fits_iff {e : ResponseError} : e.Fits ↔ ∃ value, ofJson? value = some e := by
  refine ⟨fun h => ⟨e.toJson, ofJson?_toJson h⟩, fun ⟨value, h⟩ => ?_⟩
  cases value with
  | obj fields =>
    obtain ⟨message, -, hmembers⟩ := Option.bind_eq_some_iff.1 h
    exact fits_of_ofMembers? hmembers
  | arr items =>
    cases items with
    | nil => cases h
    | cons message rest =>
      rw [ofJson?] at h
      split at h
      · exact fits_of_ofMembers? h
      · cases h
  | _ => cases h

end ResponseError

/-- An error comes back from its encoding as it was, so no other error is encoded alike: not one
whose path or extensions are empty instead of absent, nor one with an index for a key of the same
digits. -/
theorem responseError_roundTrip {e : ResponseError} (he : e.Fits) :
    ResponseError.ofJson? e.toJson = some e ∧
    ∀ other : ResponseError, other.Fits → other.toJson = e.toJson → other = e := by
  refine ⟨ResponseError.ofJson?_toJson he, fun other hother hsame => ?_⟩
  apply Option.some.inj
  rw [← ResponseError.ofJson?_toJson hother, hsame, ResponseError.ofJson?_toJson he]

namespace RoundTrip

/-- Its path has a key and an index of the same digit, and its extensions are empty. -/
def boom : ResponseError :=
  { message := "Boom"
    locations := [{ line := 2, column := 3 }]
    path := some [.key "1", .index 1]
    extensions := some [] }

theorem fits_boom : boom.Fits :=
  { locations := by simp [boom, Location.Fits, Json.FitsNat]
    path := by simp [boom, PathSegment.Fits, Json.FitsNat] }

end RoundTrip

/-- An error with a path or extensions that look alike is encoded otherwise. -/
theorem responseError_roundTrip_digits :
    ResponseError.ofJson? RoundTrip.boom.toJson = some RoundTrip.boom ∧
    ∀ other : ResponseError, other.Fits →
      other.path = some [.index 1, .key "1"] ∨ other.path = some [] ∨ other.path = none ∨
        other.extensions = none →
      other.toJson ≠ RoundTrip.boom.toJson := by
  obtain ⟨hback, hsame⟩ := responseError_roundTrip RoundTrip.fits_boom
  refine ⟨hback, fun other hother hdiffers hencoded => ?_⟩
  rw [hsame other hother hencoded] at hdiffers
  simp [RoundTrip.boom] at hdiffers

end TypedQuery
