import LineCompiler.Fault

/-!
# Results that may fail

A result that was put together from another one is fine only if that one was, and fails only as that
one does or what was done with it.
-/

namespace LineCompiler

variable {α β : Type} {result : Except Fault α} {value : β}

theorem exists_of_map_eq_ok {f : α → β} (hmap : result.map f = .ok value) :
    ∃ found, result = .ok found ∧ f found = value := by
  cases result with
  | error fault => exact nomatch hmap
  | ok found =>
      cases hmap
      exact ⟨found, rfl, rfl⟩

theorem exists_of_bind_eq_ok {f : α → Except Fault β} (hbind : result.bind f = .ok value) :
    ∃ found, result = .ok found ∧ f found = .ok value := by
  cases result with
  | error fault => exact nomatch hbind
  | ok found => exact ⟨found, rfl, hbind⟩

theorem bind_ne_error {f : α → Except Fault β} {fault : Fault} (hresult : result ≠ .error fault)
    (hf : ∀ found, f found ≠ .error fault) : result.bind f ≠ .error fault := by
  cases result with
  | error other =>
      intro hbind
      cases hbind
      exact hresult rfl
  | ok found => exact hf found

theorem map_ne_error {f : α → β} {fault : Fault} (hresult : result ≠ .error fault) :
    result.map f ≠ .error fault := by
  cases result with
  | error other =>
      intro hmap
      cases hmap
      exact hresult rfl
  | ok found => simp [Except.map]

end LineCompiler
