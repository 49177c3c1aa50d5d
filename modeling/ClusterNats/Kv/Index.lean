import ClusterNats.Kv.Requests

/-!
# Upkeep of the index

The programs that keep a key's index record touch no data record, so they are
checked for any duty that leaves index subjects alone.

* `IndexOnly` — a request that touches a key's index subject at most.
* `asks_indexOnly` — what the programs that keep the index ask for.
* `safe_publishIndex`, `safe_refused` — their rules.
-/

namespace ClusterNats

open Conc

/-- A request that writes the index subject of `key` or nothing. -/
def IndexOnly (key : String) : Req → Prop
  | .publish subject _ _ _ => subject = indexKey key
  | .purge subject _ => subject = indexKey key
  | _ => True

theorem indexOnly_of_read {key : String} (r : Req) (h : r.isWrite = false) : IndexOnly key r := by
  cases r <;> trivial

/-- The upkeep of a key's index asks for nothing else. -/
theorem asks_indexOnly (key : String) : AsksIndex key (IndexOnly key) :=
  ⟨indexOnly_of_read, fun _ _ _ => rfl, fun _ => rfl⟩

section Rules

variable {D : Duty} {api : CounterApi} {op : Op} {who : Actor} {α : Type}
  {Q : List Job → Except ClusterError α → KvView → Prop} {js : List Job} {v : KvView}

/-- A program that keeps the index is checked, and changes no job. -/
theorem safe_indexOnly {p : Kv α} {key : String}
    (hindex : ∀ s log r, IndexOnly key r → D.write op who s log r) (h : p.Requests (IndexOnly key)) :
    D.rules.Safe (kvSystem api) op who (fun js' _ _ => js' = js) p js v :=
  Rules.safe_of_requests h (fun s log r hr _ => hindex s log r hr) js v

/-- The index record of a write, in flight behind it. -/
theorem safe_publishIndex (hD : D.Steady) {key : String} {f : PendingWrite → Kv α}
    (hindex : ∀ s log r, IndexOnly key r → D.write op who s log r)
    (hok : ∀ ack v', D.rules.rely v v' → D.rules.Safe (kvSystem api) op who Q (f ack) js v')
    (herr : ∀ e v', D.rules.rely v v' → Q js (.error e) v') :
    D.rules.Safe (kvSystem api) op who Q (publishIndex key >>= f) js v :=
  safe_publishRecord hD (fun _ _ => hindex _ _ _ rfl)
    (fun _ ack v₂ hv hv₂ _ => hok ack v₂ (Duty.rely_trans hv hv₂)) herr

/-- The recovery of a refused write ends with the write's error. -/
theorem safe_refused {key : String} {indexed : Except ClusterError (Option Nat)}
    {e : ClusterError} (hindex : ∀ s log r, IndexOnly key r → D.write op who s log r)
    (herr : ∀ e v', Q js (.error e) v') :
    D.rules.Safe (kvSystem api) op who Q (refused key indexed e : Kv α) js v := by
  unfold refused
  split
  · refine Rules.Safe.bind (Q := fun js' _ _ => js' = js) Duty.ordered ?_ ?_ ?_
    · exact safe_indexOnly hindex ((requests_unindex (asks_indexOnly key)).attempt.map)
    · rintro a js' v' rfl
      exact safe_fail fun v'' _ => herr _ _
    · rintro e' js' v' rfl
      exact herr _ _
  · exact safe_fail fun v'' _ => herr _ _

end Rules

end ClusterNats
