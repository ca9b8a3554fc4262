import KitRpc.Provider.Dispatch
/-!
# The dispatch table

What any sequence of `notifyService` calls leaves in `_servicesMap`. An insert
keeps an entry that is there, so the object and the methods of an entry always
come from the same registration.
-/

namespace KitRpc.Provider

open KitRpc.Cpp

variable {α ρ μ κ : Type} (api : GPService α ρ μ κ)

def firstNamed (services : List α) (name : Bytes) : Option α :=
  services.find? fun service => (api.getDescriptor service).name = name

def declared (service : α) (name : Bytes) : Option MethodDescriptor :=
  (api.getDescriptor service).methods.find? fun method => method.name = name

/-- The table after `services` were registered, one after the other. -/
structure FilledBy (services : List α) (servicesMap : ServicesMap α) : Prop where
  keysNodup : servicesMap.KeysNodup
  entries : ∀ entry ∈ servicesMap,
    entry.1 = (api.getDescriptor entry.2.service).name ∧
      entry.2 = serviceInfo api entry.2.service ∧ entry.2.service ∈ services
  finds : ∀ name, servicesMap.find name = (firstNamed api services name).map (serviceInfo api)

/-! ## The methods of one entry -/

theorem find_methodsMap_eq (service : α) (name : Bytes) :
    (serviceInfo api service).methodsMap.find name = declared api service name := by
  have h := UnorderedMap.find_foldl_insert MethodDescriptor.name id
    (api.getDescriptor service).methods [] name
  rw [UnorderedMap.find_nil, Option.none_or, Option.map_id_fun, id_eq] at h
  exact h

theorem keysNodup_methodsMap (service : α) :
    (serviceInfo api service).methodsMap.KeysNodup := by
  have hempty : UnorderedMap.KeysNodup ([] : UnorderedMap MethodDescriptor) := List.nodup_nil
  exact hempty.foldl_insert MethodDescriptor.name id (api.getDescriptor service).methods

variable {api}

theorem declared_eq_some_iff {service : α} {name : Bytes} {method : MethodDescriptor} :
    declared api service name = some method ↔
      method ∈ (api.getDescriptor service).methods ∧ method.name = name := by
  constructor
  · intro h
    exact ⟨List.mem_of_find?_eq_some h, by simpa using List.find?_some h⟩
  · rintro ⟨hmem, rfl⟩
    rw [← find_methodsMap_eq]
    exact find_methodsMap hmem

/-- A loop over the methods of an entry visits those the service declares. -/
theorem mem_methodsMap_iff {service : α} {entry : Bytes × MethodDescriptor} :
    entry ∈ (serviceInfo api service).methodsMap ↔
      entry.2 ∈ (api.getDescriptor service).methods ∧ entry.2.name = entry.1 := by
  rw [← declared_eq_some_iff, ← find_methodsMap_eq,
    UnorderedMap.find_eq_some_iff (keysNodup_methodsMap api service)]

/-! ## Registrations -/

theorem FilledBy.empty : FilledBy api [] [] where
  keysNodup := List.nodup_nil
  entries := by simp
  finds _ := rfl

theorem FilledBy.notifyService {services : List α} {servicesMap : ServicesMap α}
    (h : FilledBy api services servicesMap) (service : α) :
    FilledBy api (services ++ [service]) (notifyService api servicesMap service) where
  keysNodup := h.keysNodup.insert _ _
  entries entry hentry := by
    apply (UnorderedMap.mem_insert hentry).elim
    · intro hold
      obtain ⟨hname, hinfo, hmem⟩ := h.entries entry hold
      exact ⟨hname, hinfo, List.mem_append_left _ hmem⟩
    · intro hnew
      rw [hnew]
      exact ⟨rfl, rfl, List.mem_append_right _ (List.mem_singleton.mpr rfl)⟩
  finds name := by
    rw [Provider.notifyService, UnorderedMap.find_insert, h.finds, firstNamed, firstNamed,
      List.find?_append]
    by_cases hname : (api.getDescriptor service).name = name
    · rw [if_pos hname.symm, List.find?_cons_of_pos (by simpa using hname)]
      cases services.find? fun service => (api.getDescriptor service).name = name <;> rfl
    · rw [if_neg fun heq => hname heq.symm, List.find?_cons_of_neg (by simpa using hname),
        List.find?_nil, Option.or_none, Option.or_none]

theorem filledBy_foldl {before : List α} {servicesMap : ServicesMap α}
    (h : FilledBy api before servicesMap) (services : List α) :
    FilledBy api (before ++ services) (services.foldl (notifyService api) servicesMap) := by
  induction services generalizing before servicesMap with
  | nil => rwa [List.append_nil]
  | cons service services ih =>
      have hnext := ih (h.notifyService service)
      rwa [List.append_assoc] at hnext

end KitRpc.Provider
