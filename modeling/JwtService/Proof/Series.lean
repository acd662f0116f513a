import Mathlib.Data.Finite.Prod
import Mathlib.Data.Set.Finite.Lattice
import Mathlib.Order.Interval.Finset.Nat
import JwtService.Model.Logging

/-!
# The series of the request metric

Of the three labels the endpoint is a registered pattern or `unmatched`, and
the status one of nine hundred, whatever is requested (`recorded_inv`). The
method is the one of the request, and HTTP has no list of methods: the series
stay within a finite set as long as the methods do (`series_bounded_iff`).
-/

namespace JwtService

variable {app : App} {es : List Exchange} {l : Labels}

/-- What labels hold, one by one. -/
theorem recorded_inv (h : l ∈ app.recorded es) : ∃ e ∈ es, l.method = e.request.method.text ∧
    l.endpoint ∈ "unmatched" :: routePatterns app.metricsEnabled ∧ l.status ∈ Set.Icc 100 999 := by
  obtain ⟨⟨req, fresh, outcome⟩, he, hl⟩ := List.mem_filterMap.mp h
  cases outcome with
  | none => cases hl
  | some status =>
    obtain rfl := Option.some.inj hl
    refine ⟨_, he, rfl, ?_, status.range⟩
    show (app.matchPattern req.path).getD "unmatched" ∈ _
    cases hp : app.matchPattern req.path with
    | none => exact List.mem_cons_self
    | some pattern => exact List.mem_cons_of_mem _ (app.matchPattern_mem _ _ hp)

/-- The series that requests with these methods can make. -/
def seriesOf (app : App) (methods : Set Method) : Set Labels :=
  {l | l.method ∈ Method.text '' methods ∧ l.endpoint ∈ "unmatched" :: routePatterns app.metricsEnabled ∧
    l.status ∈ Set.Icc 100 999}

theorem seriesOf_finite {methods : Set Method} (h : methods.Finite) : (seriesOf app methods).Finite := by
  have hproduct := (h.image Method.text).prod
    ((List.finite_toSet ("unmatched" :: routePatterns app.metricsEnabled)).prod (Set.finite_Icc 100 999))
  have hinj : Function.Injective fun l : Labels => (l.method, l.endpoint, l.status) := by
    rintro ⟨m, p, s⟩ ⟨m', p', s'⟩ h
    simpa using h
  exact (hproduct.preimage hinj.injOn).subset fun l hl => ⟨hl.1, hl.2.1, hl.2.2⟩

theorem method_text_injective : Function.Injective Method.text := by
  rintro ⟨t, ht⟩ ⟨t', ht'⟩ h
  cases h
  rfl

/-- As many series as methods, where each method is answered. -/
theorem methods_finite {methods : Set Method} {F : Set Labels} (hF : F.Finite)
    (h : ∀ m ∈ methods, ∃ l ∈ F, l.method = m.text) : methods.Finite := by
  refine ((hF.image Labels.method).preimage method_text_injective.injOn).subset fun m hm => ?_
  obtain ⟨l, hl, hlm⟩ := h m hm
  exact ⟨l, hl, hlm⟩

/-- The labels of all streams of requests lie in one finite set if and only if
the requests come with finitely many methods. The service inside answers some
request of each method with a response, as actix does with 404 or 405. -/
theorem series_bounded_iff (app : App)
    (hanswers : ∀ m : Method, ∃ req status, req.method = m ∧ app.answers [] req (some status))
    (methods : Set Method) :
    (∃ F : Set Labels, F.Finite ∧ ∀ es, app.Serves [] es → (∀ e ∈ es, e.request.method ∈ methods) →
      ∀ l ∈ app.recorded es, l ∈ F) ↔ methods.Finite := by
  constructor
  · rintro ⟨F, hF, hall⟩
    refine methods_finite hF fun m hm => ?_
    obtain ⟨req, status, rfl, hans⟩ := hanswers m
    have hrec := hall [⟨req, "", some status⟩] ⟨hans, trivial⟩ (by simpa using hm)
    exact ⟨_, hrec _ List.mem_cons_self, rfl⟩
  · intro hfinite
    refine ⟨seriesOf app methods, seriesOf_finite hfinite, fun es _ hes l hl => ?_⟩
    obtain ⟨e, he, hmethod, hendpoint, hstatus⟩ := recorded_inv hl
    exact ⟨⟨e.request.method, hes e he, hmethod.symm⟩, hendpoint, hstatus⟩

/-! ## Methods of any length -/

/-- The health probe; any other request, and any other method, is answered 404. -/
def probeStatus (req : HttpRequest) : StatusCode :=
  if req.method.text = "GET" ∧ req.path = "/livez" then ⟨200, by decide⟩ else ⟨404, by decide⟩

/-- A service with the health probe only. -/
def probeApp : App where
  metricsEnabled := false
  matchPattern path := if path = "/livez" then some "/livez" else none
  matchPattern_mem path pattern h := by
    obtain ⟨-, hp⟩ := Option.ite_none_right_eq_some.mp h
    rw [← Option.some.inj hp]
    decide
  answers _ req outcome := outcome = some (probeStatus req)

theorem series_bounded_iff_get : ∃ F : Set Labels, F.Finite ∧
    ∀ es, probeApp.Serves [] es →
      (∀ e ∈ es, e.request.method ∈ ({⟨"GET", by decide, List.all_eq_true.mp (by decide)⟩} : Set Method)) →
      ∀ l ∈ probeApp.recorded es, l ∈ F :=
  (series_bounded_iff probeApp (fun m => ⟨⟨m, "/livez", [], []⟩, _, rfl, rfl⟩) _).mpr (Set.finite_singleton _)

/-- The method of `n + 1` letters. -/
def longMethod (n : Nat) : Method where
  text := String.ofList (List.replicate (n + 1) 'A')
  token := by
    refine ⟨fun h => ?_, fun c hc => ?_⟩
    · have := congrArg String.toList h
      simp at this
    · rw [String.toList_ofList] at hc
      rw [List.eq_of_mem_replicate hc]
      decide

theorem longMethod_injective : Function.Injective longMethod := by
  intro m n h
  have hlen := congrArg (fun x : Method => x.text.toList.length) h
  simpa [longMethod] using hlen

/-- No finite set holds the labels of all streams of requests to one path. -/
theorem series_unbounded : ¬ ∃ F : Set Labels, F.Finite ∧ ∀ es, probeApp.Serves [] es →
    (∀ e ∈ es, e.request.path = "/livez") → ∀ l ∈ probeApp.recorded es, l ∈ F := by
  rintro ⟨F, hF, hall⟩
  have hfinite : (Set.range longMethod).Finite := by
    refine methods_finite hF ?_
    rintro m ⟨n, rfl⟩
    let req : HttpRequest := ⟨longMethod n, "/livez", [], []⟩
    exact ⟨_, hall [⟨req, "", some (probeStatus req)⟩] ⟨rfl, trivial⟩ (by simp [req]) _ List.mem_cons_self, rfl⟩
  exact Set.infinite_range_of_injective longMethod_injective hfinite

end JwtService
