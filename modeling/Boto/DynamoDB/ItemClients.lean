import Boto.DynamoDB.Item
import Boto.Support.Runs
import Mathlib.Logic.Function.Basic

/-!
# Clients that change the same item

Clients load an item, change attributes of their own and save.  If none of them sends what
it only loaded, the changes of all of them are stored, in whichever order the requests
arrive.
-/

namespace Boto.DynamoDB

variable {Client Value Payload : Type} [DecidableEq Client] [DecidableEq Payload]

/-- What a client does: it loads an item by its key, and changes it by calls before it is
saved. -/
structure Session (Value : Type) where
  hashKey : Value
  rangeKey : Option Value
  calls : List (Call Value)

/-- The requests of the clients. -/
inductive Event (Client : Type)
  | get (client : Client)
  | save (client : Client)
  deriving DecidableEq

/-- Who sends a request. -/
def Event.client : Event Client → Client
  | get client => client
  | save client => client

/-- The stored items of a table, and the items that the clients have loaded. -/
structure World (Client Value Payload : Type) where
  stored : DynamoDBKey Payload → Option (OrderedDict Text (Wire Payload))
  items : Client → Option (Item Value)

/-- A service updates an attribute of an item. -/
def appliedTo (apply : WireUpdate Payload → Option (Wire Payload) → Option (Wire Payload))
    (item : OrderedDict Text (Wire Payload)) (entry : Text × WireUpdate Payload) :
    OrderedDict Text (Wire Payload) :=
  match apply entry.2 (item.get? entry.1) with
  | some value => item.set entry.1 value
  | none => item.erase entry.1

/-- A service updates an item attribute by attribute. -/
def applied (apply : WireUpdate Payload → Option (Wire Payload) → Option (Wire Payload))
    (updates : OrderedDict Text (WireUpdate Payload)) (item : OrderedDict Text (Wire Payload)) :
    OrderedDict Text (Wire Payload) :=
  updates.items.foldl (appliedTo apply) item

section

variable (layer2 : Layer2 Value Payload) (decode : Wire Payload → Value)
  (apply : WireUpdate Payload → Option (Wire Payload) → Option (Wire Payload))
  (table : Table) (sessions : Client → Session Value)

/-- The attributes that a response gives. -/
def responseItem (stored : OrderedDict Text (Wire Payload)) : OrderedDict Text (Option Value) :=
  stored.mapValues fun value => some (decode value)

/-- A request, which must not fail. -/
def step (world : World Client Value Payload) :
    Event Client → Option (World Client Value Payload)
  | .get client => do
      let service := fun key =>
        match world.stored key with
        | some stored => .ok (responseItem decode stored)
        | none => .error .requestError
      let item ← (layer2.getItem service table (sessions client).hashKey
        (sessions client).rangeKey).toOption
      return { world with items := Function.update world.items client (some item) }
  | .save client => do
      let item ← world.items client
      let saved := layer2.updateItem (fun _ => .ok ()) (item.afterCalls (sessions client).calls)
        none none
      let request ← saved.sent
      let stored ← world.stored request.key
      let stored := applied apply request.attributeUpdates stored
      return {
        stored := Function.update world.stored request.key (some stored)
        items := Function.update world.items client (some saved.item) }

/-- A client loads an item of whose attributes it names all. -/
def NamesLoaded (key : DynamoDBKey Payload) (world : World Client Value Payload) :
    Event Client → Prop
  | .get client => ∀ stored, world.stored key = some stored →
      NamesAll table.schema (responseItem decode stored) (sessions client).calls
  | .save _ => True

end

/-! ## The key of a loaded item -/

/-- The range key is given exactly if the table has one. -/
def GivesKey (schema : Schema) (session : Session Value) : Prop :=
  match schema.rangeKeyName with
  | none => session.rangeKey = none
  | some name => name ≠ [] ∧ name ≠ schema.hashKeyName ∧ session.rangeKey.isSome

/-- The key of the dictionary that a call changes. -/
def Call.assigned : Call Value → Option Text
  | setItem key _ => some key
  | delItem key => some key
  | _ => none

/-- No call assigns to a key. -/
def KeepsKeyAttrs (schema : Schema) (session : Session Value) : Prop :=
  ∀ call ∈ session.calls, ∀ name, call.assigned = some name → ¬schema.IsKey name

theorem after_call_keeps {item : Item Value} {updates : OrderedDict Text (Update Value)}
    (hupdates : item.updates = some updates) {call : Call Value} {name : Text}
    (hname : call.assigned ≠ some name) :
    (item.after call.method).table = item.table ∧
      (item.after call.method).attrs.get? name = item.attrs.get? name := by
  cases call with
  | setItem key value =>
      have hne : name ≠ key := fun heq => hname (congrArg some heq.symm)
      rw [Item.after, Call.method, Item.run_setItem_of_some hupdates]
      exact ⟨rfl, by simp [hne]⟩
  | delItem key =>
      have hne : name ≠ key := fun heq => hname (congrArg some heq.symm)
      rw [Item.after, Call.method, Item.run_delItem_of_some hupdates]
      by_cases hin : item.attrs.contains key
      · rw [if_pos hin]
        exact ⟨rfl, by simp [hne]⟩
      · rw [if_neg hin]
        exact ⟨rfl, rfl⟩
  | putAttribute attrName value =>
      obtain ⟨table, attrs, _⟩ := item
      cases hupdates
      exact ⟨rfl, rfl⟩
  | addAttribute attrName value =>
      obtain ⟨table, attrs, _⟩ := item
      cases hupdates
      exact ⟨rfl, rfl⟩
  | deleteAttribute attrName value =>
      obtain ⟨table, attrs, _⟩ := item
      cases hupdates
      exact ⟨rfl, rfl⟩

theorem afterCalls_keeps {item : Item Value} {updates : OrderedDict Text (Update Value)}
    (hupdates : item.updates = some updates) {calls : List (Call Value)} {name : Text}
    (hname : ∀ call ∈ calls, call.assigned ≠ some name) :
    (item.afterCalls calls).table = item.table ∧
      (item.afterCalls calls).attrs.get? name = item.attrs.get? name := by
  induction calls generalizing item updates with
  | nil => exact ⟨rfl, rfl⟩
  | cons call calls ih =>
      rw [List.forall_mem_cons] at hname
      have hfirst := after_call_keeps hupdates hname.1
      have hrest := ih (Item.updates_after_call hupdates call) hname.2
      exact ⟨hrest.1.trans hfirst.1, hrest.2.trans hfirst.2⟩

variable {layer2 : Layer2 Value Payload} {table : Table} {session : Session Value}
  {attrs : OrderedDict Text (Option Value)}

/-- An item whose keys are not assigned to is saved under the key it was loaded by. -/
theorem itemKey_afterCalls (hgiven : GivesKey table.schema session)
    (hkeeps : KeepsKeyAttrs table.schema session) :
    layer2.itemKey ((loadedItem table session.hashKey session.rangeKey attrs).afterCalls
        session.calls) =
      layer2.buildKeyFromValues table.schema session.hashKey session.rangeKey := by
  obtain ⟨htable, hupdates, hkeys⟩ :=
    @loadedItem_spec _ table session.hashKey session.rangeKey attrs
  have hget : ∀ name, table.schema.IsKey name →
      ((loadedItem table session.hashKey session.rangeKey attrs).afterCalls
        session.calls).attrs.get? name =
          (keyAttrs table.schema session.hashKey session.rangeKey attrs).get? name := by
    intro name hname
    rw [← hkeys name hname]
    refine (afterCalls_keeps hupdates fun call hcall hassigned => ?_).2
    exact hkeeps call hcall name hassigned hname
  have hsame : ((loadedItem table session.hashKey session.rangeKey attrs).afterCalls
      session.calls).table = table :=
    (afterCalls_keeps hupdates fun call hcall hassigned =>
      hkeeps call hcall table.schema.hashKeyName hassigned (.inl rfl)).1.trans htable
  rw [Layer2.itemKey, hsame, hget _ (.inl rfl)]
  rw [GivesKey] at hgiven
  cases hrange : table.schema.rangeKeyName with
  | none =>
      rw [hrange] at hgiven
      have hhash : (keyAttrs table.schema session.hashKey session.rangeKey attrs).get?
          table.schema.hashKeyName = some (some session.hashKey) := by
        rw [keyAttrs, hrange]
        simp
      rw [hhash, hgiven]
      rfl
  | some name =>
      rw [hrange] at hgiven
      obtain ⟨hnonempty, hne, hsome⟩ := hgiven
      obtain ⟨rangeKey, hrangeKey⟩ := Option.isSome_iff_exists.mp hsome
      have hattrs : keyAttrs table.schema session.hashKey session.rangeKey attrs =
          (OrderedDict.empty.set table.schema.hashKeyName (some session.hashKey)).set name
            (some rangeKey) := by
        rw [keyAttrs, hrange, hrangeKey]
        cases name with
        | nil => exact absurd rfl hnonempty
        | cons c cs => rfl
      have hrangeAttr := hget name (.inr hrange.symm)
      rw [hattrs, OrderedDict.get?_set, if_pos rfl] at hrangeAttr
      rw [hattrs, OrderedDict.get?_set, if_neg (Ne.symm hne), OrderedDict.get?_set, if_pos rfl,
        hrangeKey]
      dsimp only [Option.bind_some]
      rw [← hrangeKey, hrangeAttr]
      exact congrArg _ hrangeKey.symm

/-! ## The stored item -/

section

variable {apply : WireUpdate Payload → Option (Wire Payload) → Option (Wire Payload)}
  {decode : Wire Payload → Value} {sessions : Client → Session Value}

theorem get?_appliedTo (entry : Text × WireUpdate Payload)
    (item : OrderedDict Text (Wire Payload)) (name : Text) :
    (appliedTo apply item entry).get? name =
      if name = entry.1 then apply entry.2 (item.get? entry.1) else item.get? name := by
  rw [appliedTo]
  split <;> simp [*]

theorem get?_foldl_appliedTo_of_notMem {entries : List (Text × WireUpdate Payload)} {name : Text}
    (hname : name ∉ entries.map Prod.fst) (item : OrderedDict Text (Wire Payload)) :
    (entries.foldl (appliedTo apply) item).get? name = item.get? name := by
  induction entries generalizing item with
  | nil => rfl
  | cons entry entries ih =>
      rw [List.map_cons, List.mem_cons, not_or] at hname
      rw [List.foldl_cons, ih hname.2, get?_appliedTo, if_neg hname.1]

theorem get?_foldl_appliedTo_of_mem {entries : List (Text × WireUpdate Payload)} {name : Text}
    {update : WireUpdate Payload} (hnodup : (entries.map Prod.fst).Nodup)
    (hin : (name, update) ∈ entries) (item : OrderedDict Text (Wire Payload)) :
    (entries.foldl (appliedTo apply) item).get? name = apply update (item.get? name) := by
  induction entries generalizing item with
  | nil => cases hin
  | cons entry entries ih =>
      obtain ⟨hfirst, hnodup⟩ := List.nodup_cons.mp hnodup
      rw [List.foldl_cons]
      rcases List.mem_cons.mp hin with rfl | hin
      · rw [get?_foldl_appliedTo_of_notMem hfirst, get?_appliedTo, if_pos rfl]
      · have hne : name ≠ entry.1 := by
          rintro rfl
          exact hfirst (List.mem_map.mpr ⟨_, hin, rfl⟩)
        rw [ih hnodup hin, get?_appliedTo, if_neg hne]

/-- An update changes its own attribute. -/
theorem get?_applied (updates : OrderedDict Text (WireUpdate Payload))
    (item : OrderedDict Text (Wire Payload)) (name : Text) :
    (applied apply updates item).get? name = match updates.get? name with
      | some update => apply update (item.get? name)
      | none => item.get? name := by
  rw [applied]
  split
  · rename_i update hupdate
    exact get?_foldl_appliedTo_of_mem updates.nodup (OrderedDict.get?_eq_some_iff.mp hupdate) item
  · rename_i hnone
    exact get?_foldl_appliedTo_of_notMem (OrderedDict.get?_eq_none_iff.mp hnone) item

/-- The update that a client asks for, as it is sent. -/
def Sends (layer2 : Layer2 Value Payload) (session : Session Value) (name : Text)
    (update : WireUpdate Payload) : Prop :=
  (Call.last session.calls name).map layer2.dynamizeUpdate = some (.ok update)

/-- What a client changes is stored. -/
def Stored (layer2 : Layer2 Value Payload)
    (apply : WireUpdate Payload → Option (Wire Payload) → Option (Wire Payload))
    (session : Session Value) (before after : OrderedDict Text (Wire Payload)) : Prop :=
  ∀ call ∈ session.calls, ∃ update, Sends layer2 session call.name update ∧
    after.get? call.name = apply update (before.get? call.name)

/-- What a client changes is as it was. -/
def Untouched (session : Session Value) (before after : OrderedDict Text (Wire Payload)) :
    Prop :=
  ∀ call ∈ session.calls, after.get? call.name = before.get? call.name

/-- A client has loaded an item that it can save under a key with its changes only. -/
def Ready (layer2 : Layer2 Value Payload) (key : DynamoDBKey Payload) (session : Session Value)
    (item : Item Value) : Prop :=
  layer2.itemKey (item.afterCalls session.calls) = .ok key ∧
    ∃ updates, (item.afterCalls session.calls).updates = some updates ∧
      ∀ name, updates.get? name = Call.last session.calls name

/-- The requests of a client. -/
def ownEvents (events : List (Event Client)) (client : Client) : List (Event Client) :=
  events.filter fun event => decide (event.client = client)

/-- Where the requests that remain, and the stored item, are in a run. -/
structure Progress (layer2 : Layer2 Value Payload)
    (apply : WireUpdate Payload → Option (Wire Payload) → Option (Wire Payload))
    (sessions : Client → Session Value) (key : DynamoDBKey Payload)
    (before : OrderedDict Text (Wire Payload)) (world : World Client Value Payload)
    (events : List (Event Client)) : Prop where
  phase : ∀ client,
    ownEvents events client = [.get client, .save client] ∨
    ownEvents events client = [.save client] ∧
      (∃ item, world.items client = some item ∧ Ready layer2 key (sessions client) item) ∨
    ownEvents events client = []
  stored : ∃ current, world.stored key = some current ∧
    (∀ client,
      if ownEvents events client = [] then Stored layer2 apply (sessions client) before current
      else Untouched (sessions client) before current) ∧
    ∀ name, (∀ client, Call.last (sessions client).calls name = none) →
      current.get? name = before.get? name

variable {key : DynamoDBKey Payload} {before : OrderedDict Text (Wire Payload)}
  {world world' : World Client Value Payload} {events : List (Event Client)}

theorem ownEvents_cons_of_ne {event : Event Client} {other : Client}
    (hne : event.client ≠ other) : ownEvents (event :: events) other = ownEvents events other :=
  List.filter_cons_of_neg (by simpa using hne)

theorem ownEvents_cons_self (event : Event Client) :
    ownEvents (event :: events) event.client = event :: ownEvents events event.client :=
  List.filter_cons_of_pos (decide_eq_true rfl)

/-- Loading makes a client ready that names all that it loads. -/
theorem ready_loadedItem (hgiven : GivesKey table.schema session)
    (hkeeps : KeepsKeyAttrs table.schema session)
    (hkey : layer2.buildKeyFromValues table.schema session.hashKey session.rangeKey = .ok key)
    (hnames : NamesAll table.schema attrs session.calls) :
    Ready layer2 key session (loadedItem table session.hashKey session.rangeKey attrs) := by
  obtain ⟨updates, hupdates, hget⟩ := @exists_updates_afterCalls _ table session.hashKey
    session.rangeKey attrs session.calls
  refine ⟨(itemKey_afterCalls hgiven hkeeps).trans hkey, updates, hupdates, fun name => ?_⟩
  rw [hget]
  exact pending_iff_namesAll.mpr hnames name

theorem progress_get {client : Client}
    (hgiven : GivesKey table.schema (sessions client))
    (hkeeps : KeepsKeyAttrs table.schema (sessions client))
    (hkey : layer2.buildKeyFromValues table.schema (sessions client).hashKey
      (sessions client).rangeKey = .ok key)
    (hprogress : Progress layer2 apply sessions key before world (.get client :: events))
    (hguard : NamesLoaded decode table sessions key world (.get client))
    (hstep : step layer2 decode apply table sessions world (.get client) = some world') :
    Progress layer2 apply sessions key before world' events := by
  obtain ⟨hphase, current, hcurrent, hclients, hothers⟩ := hprogress
  let item := loadedItem table (sessions client).hashKey (sessions client).rangeKey
    (responseItem decode current)
  have hworld : world' =
      { stored := world.stored, items := Function.update world.items client (some item) } := by
    rw [step, Layer2.getItem, hkey] at hstep
    simp only [hcurrent, bind, Except.bind, pure, Except.pure, Except.toOption, Option.bind]
      at hstep
    exact (Option.some.inj hstep).symm
  have hcons : ownEvents (.get client :: events) client =
      .get client :: ownEvents events client :=
    ownEvents_cons_self (Event.get client)
  have hown : ownEvents events client = [.save client] := by
    have hself := hphase client
    rw [hcons] at hself
    rcases hself with hself | ⟨hself, -⟩ | hself
    · exact (List.cons.inj hself).2
    · cases (List.cons.inj hself).1
    · cases hself
  subst hworld
  refine ⟨fun other => ?_, current, hcurrent, fun other => ?_, hothers⟩
  · by_cases hclient : client = other
    · subst hclient
      refine .inr (.inl ⟨hown, item, Function.update_self .., ?_⟩)
      exact ready_loadedItem hgiven hkeeps hkey (hguard current hcurrent)
    · have hne : (Event.get client).client ≠ other := hclient
      rw [← ownEvents_cons_of_ne hne]
      simp only [Function.update_of_ne (Ne.symm hclient)]
      exact hphase other
  · have hother := hclients other
    by_cases hclient : client = other
    · subst hclient
      rw [hcons, if_neg (List.cons_ne_nil _ _)] at hother
      rw [hown, if_neg (List.cons_ne_nil _ _)]
      exact hother
    · have hne : (Event.get client).client ≠ other := hclient
      rw [ownEvents_cons_of_ne hne] at hother
      exact hother

/-- An item that is ready is saved with what its client changed. -/
theorem sent_of_ready {item : Item Value} {request : UpdateRequest Payload}
    {service : UpdateRequest Payload → Except PyError Unit}
    (hready : Ready layer2 key session item)
    (hsent : (layer2.updateItem service (item.afterCalls session.calls) none none).sent =
      some request) :
    request.key = key ∧ ∀ name, (Call.last session.calls name).map layer2.dynamizeUpdate =
      (request.attributeUpdates.get? name).map Except.ok := by
  obtain ⟨updates, hupdates, hkey, hwire⟩ := updateRequest_ok (sent_eq hsent)
  obtain ⟨hready, pending, hpending, hget⟩ := hready
  obtain rfl : pending = updates := Option.some.inj (hpending.symm.trans hupdates)
  refine ⟨Except.ok.inj (hkey.symm.trans hready), fun name => ?_⟩
  rw [← hget name]
  exact get?_dynamizeAttributeUpdates hwire name

theorem progress_save {client : Client}
    (hdisjoint : ∀ client other, client ≠ other → ∀ name,
      Call.last (sessions client).calls name = none ∨
        Call.last (sessions other).calls name = none)
    (hprogress : Progress layer2 apply sessions key before world (.save client :: events))
    (hstep : step layer2 decode apply table sessions world (.save client) = some world') :
    Progress layer2 apply sessions key before world' events := by
  obtain ⟨hphase, current, hcurrent, hclients, hothers⟩ := hprogress
  have hcons : ownEvents (.save client :: events) client =
      .save client :: ownEvents events client :=
    ownEvents_cons_self (Event.save client)
  have hself := hphase client
  rw [hcons] at hself
  obtain ⟨hown, item, hitem, hready⟩ : ownEvents events client = [] ∧
      ∃ item, world.items client = some item ∧ Ready layer2 key (sessions client) item := by
    rcases hself with hself | ⟨hself, hready⟩ | hself
    · cases (List.cons.inj hself).1
    · exact ⟨(List.cons.inj hself).2, hready⟩
    · cases hself
  obtain ⟨item', hitem', hstep⟩ := Option.bind_eq_some_iff.mp hstep
  obtain rfl : item = item' := Option.some.inj (hitem.symm.trans hitem')
  obtain ⟨request, hsent, hstep⟩ := Option.bind_eq_some_iff.mp hstep
  obtain ⟨stored, hstored, hstep⟩ := Option.bind_eq_some_iff.mp hstep
  obtain ⟨hkey, hsends⟩ := sent_of_ready hready hsent
  rw [hkey] at hstored hstep
  obtain rfl : current = stored := Option.some.inj (hcurrent.symm.trans hstored)
  cases hstep
  have hget := @get?_applied _ _ apply request.attributeUpdates current
  have hframe : ∀ name, Call.last (sessions client).calls name = none →
      (applied apply request.attributeUpdates current).get? name = current.get? name := by
    intro name hnone
    have hnothing := hsends name
    rw [hnone] at hnothing
    rw [hget, Option.map_eq_none_iff.mp hnothing.symm]
  refine ⟨fun other => ?_, _, Function.update_self .., fun other => ?_, fun name hnone => ?_⟩
  · by_cases hclient : client = other
    · subst hclient
      exact .inr (.inr hown)
    · have hne : (Event.save client).client ≠ other := hclient
      rw [← ownEvents_cons_of_ne hne]
      simp only [Function.update_of_ne (Ne.symm hclient)]
      exact hphase other
  · have hother := hclients other
    by_cases hclient : client = other
    · subst hclient
      rw [hcons, if_neg (List.cons_ne_nil _ _)] at hother
      rw [if_pos hown]
      intro call hcall
      have hsome := hsends call.name
      cases hlast : Call.last (sessions client).calls call.name with
      | none => exact absurd rfl (Call.last_eq_none_iff.mp hlast call hcall)
      | some update =>
          rw [hlast] at hsome
          obtain ⟨wire, hwire, hupdate⟩ := Option.map_eq_some_iff.mp hsome.symm
          refine ⟨wire, ?_, ?_⟩
          · rw [Sends, hlast, hupdate]
            rfl
          · rw [hget, hwire, hother call hcall]
    · have hne : (Event.save client).client ≠ other := hclient
      have hsame : ∀ call ∈ (sessions other).calls,
          (applied apply request.attributeUpdates current).get? call.name =
            current.get? call.name := by
        intro call hcall
        refine hframe call.name ((hdisjoint client other hclient call.name).resolve_right ?_)
        exact fun hnone => Call.last_eq_none_iff.mp hnone call hcall rfl
      rw [ownEvents_cons_of_ne hne] at hother
      split at hother
      · rename_i hdone
        rw [if_pos hdone]
        intro call hcall
        obtain ⟨wire, hwire, hafter⟩ := hother call hcall
        exact ⟨wire, hwire, (hsame call hcall).trans hafter⟩
      · rename_i hrest
        rw [if_neg hrest]
        exact fun call hcall => (hsame call hcall).trans (hother call hcall)
  · exact (hframe name (hnone client)).trans (hothers name hnone)

/-- If every client loads only what it names, and sends its two requests in order, the changes
of all of them are stored in the end. -/
theorem changes_stored
    (hgiven : ∀ client, GivesKey table.schema (sessions client))
    (hkeeps : ∀ client, KeepsKeyAttrs table.schema (sessions client))
    (hkey : ∀ client, layer2.buildKeyFromValues table.schema (sessions client).hashKey
      (sessions client).rangeKey = .ok key)
    (hdisjoint : ∀ client other, client ≠ other → ∀ name,
      Call.last (sessions client).calls name = none ∨
        Call.last (sessions other).calls name = none)
    (hbefore : world.stored key = some before)
    (horder : ∀ client, ownEvents events client = [.get client, .save client])
    (hguarded : Runs.Guarded (step layer2 decode apply table sessions)
      (NamesLoaded decode table sessions key) world events)
    (hrun : Runs.run (step layer2 decode apply table sessions) world events = some world') :
    ∃ after, world'.stored key = some after ∧
      (∀ client, Stored layer2 apply (sessions client) before after) ∧
      ∀ name, (∀ client, Call.last (sessions client).calls name = none) →
        after.get? name = before.get? name := by
  have hprogress : Progress layer2 apply sessions key before world events := by
    refine ⟨fun client => .inl (horder client), before, hbefore, fun client => ?_,
      fun _ _ => rfl⟩
    rw [horder client, if_neg (List.cons_ne_nil _ _)]
    exact fun _ _ => rfl
  clear horder hbefore
  induction events generalizing world with
  | nil =>
      cases hrun
      obtain ⟨-, after, hafter, hclients, hothers⟩ := hprogress
      exact ⟨after, hafter, hclients, hothers⟩
  | cons event events ih =>
      obtain ⟨middle, hstep, hrest⟩ := Option.bind_eq_some_iff.mp hrun
      refine ih (hguarded.2 middle hstep) hrest ?_
      cases event with
      | get client =>
          exact progress_get (hgiven client) (hkeeps client) (hkey client) hprogress hguarded.1
            hstep
      | save client => exact progress_save hdisjoint hprogress hstep

end

/-! ## Both together -/

/-- What a save sends is only what the calls ask for exactly if they name every loaded
attribute, and it is cleared exactly if the service answers.  Clients for which that is so
store all of their changes. -/
theorem item_saves_changes_iff (Client Answer : Type) [DecidableEq Client]
    (layer2 : Layer2 Value Payload) (decode : Wire Payload → Value)
    (apply : WireUpdate Payload → Option (Wire Payload) → Option (Wire Payload))
    (table : Table) :
    (∀ (service : UpdateRequest Payload → Except PyError Answer) hashKey rangeKey attrs item calls
      expectedValue returnValues,
      layer2.getItem (fun _ => .ok attrs) table hashKey rangeKey = .ok item →
        let saved := layer2.updateItem service (item.afterCalls calls) expectedValue returnValues
        (saved.item.updates = match saved.answer with
          | .ok _ => (item.afterCalls calls).updates.map fun _ => OrderedDict.empty
          | .error _ => (item.afterCalls calls).updates) ∧
          ∀ request, saved.sent = some request →
            (SendsOnly layer2 calls request ↔ NamesAll table.schema attrs calls)) ∧
      ∀ (sessions : Client → Session Value) key world world' before events,
        (∀ client, GivesKey table.schema (sessions client)) →
        (∀ client, KeepsKeyAttrs table.schema (sessions client)) →
        (∀ client, layer2.buildKeyFromValues table.schema (sessions client).hashKey
          (sessions client).rangeKey = .ok key) →
        (∀ client other, client ≠ other → ∀ name,
          Call.last (sessions client).calls name = none ∨
            Call.last (sessions other).calls name = none) →
        world.stored key = some before →
        (∀ client, ownEvents events client = [.get client, .save client]) →
        Runs.Guarded (step layer2 decode apply table sessions)
          (NamesLoaded decode table sessions key) world events →
        Runs.run (step layer2 decode apply table sessions) world events = some world' →
          ∃ after, world'.stored key = some after ∧
            (∀ client, Stored layer2 apply (sessions client) before after) ∧
            ∀ name, (∀ client, Call.last (sessions client).calls name = none) →
              after.get? name = before.get? name := by
  constructor
  · intro service hashKey rangeKey attrs item calls expectedValue returnValues hget
    obtain ⟨key, -, hget⟩ := except_bind_eq_ok.mp hget
    obtain rfl : loadedItem table hashKey rangeKey attrs = item := Except.ok.inj hget
    exact ⟨updates_updateItem, fun request hsent => sendsOnly_iff hsent⟩
  · intro sessions key world world' before events hgiven hkeeps hkey hdisjoint hbefore horder
      hguarded hrun
    exact changes_stored hgiven hkeeps hkey hdisjoint hbefore horder hguarded hrun

/-- A service that puts values and deletes attributes. -/
def putOrDelete (update : WireUpdate Text) (_ : Option (Wire Text)) : Option (Wire Text) :=
  update.value

/-- Two clients, of which one names only the first attribute and the other one the second. -/
def twoSessions (first second : Text) : Bool → Session Text
  | true => ⟨"1".toList, none, [.setItem first (some "new".toList)]⟩
  | false => ⟨"1".toList, none, [.setItem second (some "new".toList)]⟩

/-- A table with one item. -/
def oneItem (attrs : List (Text × Wire Text)) : World Bool Text Text where
  stored key :=
    if key = ⟨⟨"S".toList, "1".toList⟩, none⟩ then some (OrderedDict.ofEntries attrs) else none
  items _ := none

/-- Both load before either saves. -/
def loadsFirst : List (Event Bool) := [.get true, .get false, .save true, .save false]

/-- The value of an attribute in the end. -/
def finalValue (attrs : List (Text × Wire Text)) (name : Text) : Option (Wire Text) := do
  let world ← Runs.run (step textLayer2 Wire.payload putOrDelete textTable
    (twoSessions "a".toList "b".toList)) (oneItem attrs) loadsFirst
  let item ← world.stored ⟨⟨"S".toList, "1".toList⟩, none⟩
  item.get? name

/-- The key of an item as an attribute. -/
def idOnly : List (Text × Wire Text) := [("id".toList, ⟨"S".toList, "1".toList⟩)]

theorem guarded_idOnly : Runs.Guarded
    (step textLayer2 Wire.payload putOrDelete textTable (twoSessions "a".toList "b".toList))
    (NamesLoaded Wire.payload textTable (twoSessions "a".toList "b".toList)
      ⟨⟨"S".toList, "1".toList⟩, none⟩) (oneItem idOnly) loadsFirst := by
  have hnames : ∀ stored : OrderedDict Text (Wire Text),
      (oneItem idOnly).stored ⟨⟨"S".toList, "1".toList⟩, none⟩ = some stored →
        ∀ calls, NamesAll textTable.schema (responseItem Wire.payload stored) calls := by
    intro stored hstored calls name hname
    cases (show some (OrderedDict.ofEntries idOnly) = some stored from hstored)
    obtain rfl := List.mem_singleton.mp hname
    exact .inl (.inl rfl)
  refine ⟨fun stored hstored => hnames stored hstored _, fun world hworld => ?_⟩
  cases hworld
  refine ⟨fun stored hstored => hnames stored hstored _, fun world hworld => ?_⟩
  exact ⟨trivial, fun _ _ => ⟨trivial, fun _ _ => trivial⟩⟩

theorem givesKey_twoSessions (client : Bool) :
    GivesKey textTable.schema (twoSessions "a".toList "b".toList client) := by
  cases client with
  | false => rfl
  | true => rfl

theorem keepsKeyAttrs_twoSessions (client : Bool) :
    KeepsKeyAttrs textTable.schema (twoSessions "a".toList "b".toList client) := by
  intro call hcall name hname
  cases client with
  | false =>
      obtain rfl := List.mem_singleton.mp hcall
      cases hname
      decide
  | true =>
      obtain rfl := List.mem_singleton.mp hcall
      cases hname
      decide

theorem disjoint_twoSessions (client other : Bool) (hne : client ≠ other) (name : Text) :
    Call.last (twoSessions "a".toList "b".toList client).calls name = none ∨
      Call.last (twoSessions "a".toList "b".toList other).calls name = none := by
  have hnames : "a".toList ≠ name ∨ "b".toList ≠ name := by
    by_contra hboth
    rw [not_or, not_not, not_not] at hboth
    exact absurd (hboth.1.trans hboth.2.symm) (by decide)
  rw [Call.last_eq_none_iff, Call.last_eq_none_iff]
  cases client with
  | false =>
      cases other with
      | false => exact absurd rfl hne
      | true => exact hnames.symm.imp List.forall_mem_singleton.mpr List.forall_mem_singleton.mpr
  | true =>
      cases other with
      | false => exact hnames.imp List.forall_mem_singleton.mpr List.forall_mem_singleton.mpr
      | true => exact absurd rfl hne

theorem item_saves_changes_idOnly :
    SendsOnly textLayer2 [.setItem "a".toList (some "new".toList)] {
        tableName := "users".toList
        key := ⟨⟨"S".toList, "1".toList⟩, none⟩
        attributeUpdates := .ofEntries
          [("a".toList, ⟨.put, some ⟨"S".toList, "new".toList⟩⟩)]
        expected := none
        returnValues := none } ∧
      ∃ world after, world.stored ⟨⟨"S".toList, "1".toList⟩, none⟩ = some after ∧
        Runs.run (step textLayer2 Wire.payload putOrDelete textTable
          (twoSessions "a".toList "b".toList)) (oneItem idOnly) loadsFirst = some world ∧
        ∀ client, Stored textLayer2 putOrDelete (twoSessions "a".toList "b".toList client)
          (.ofEntries idOnly) after := by
  constructor
  · refine (((item_saves_changes_iff Bool Unit textLayer2 Wire.payload putOrDelete textTable).1
      (fun _ => .ok ()) "1".toList none OrderedDict.empty _ _ none none rfl).2 _ rfl).mpr ?_
    exact fun name hname => absurd hname List.not_mem_nil
  · obtain ⟨world, hworld⟩ := Option.isSome_iff_exists.mp (show (Runs.run (step textLayer2
      Wire.payload putOrDelete textTable (twoSessions "a".toList "b".toList)) (oneItem idOnly)
        loadsFirst).isSome = true by decide +kernel)
    obtain ⟨after, hafter, hstored, -⟩ := (item_saves_changes_iff Bool Unit textLayer2
      Wire.payload putOrDelete textTable).2 (twoSessions "a".toList "b".toList)
        ⟨⟨"S".toList, "1".toList⟩, none⟩ (oneItem idOnly) world (.ofEntries idOnly) loadsFirst
        givesKey_twoSessions keepsKeyAttrs_twoSessions (by decide +kernel)
        disjoint_twoSessions rfl (by decide +kernel) guarded_idOnly hworld
    exact ⟨world, after, hafter, hworld, hstored⟩

/-- An attribute that is not named is sent, so that it undoes what another client changed. -/
theorem item_saves_what_it_loads :
    (¬∀ attrs item calls request,
      textLayer2.getItem (fun _ => .ok attrs) textTable "1".toList none = .ok item →
        (textLayer2.updateItem (fun _ => .ok ()) (item.afterCalls calls) none none).sent =
          some request → SendsOnly textLayer2 calls request) ∧
    finalValue (idOnly ++ [("a".toList, ⟨"S".toList, "old".toList⟩),
      ("b".toList, ⟨"S".toList, "old".toList⟩)]) "a".toList =
        some ⟨"S".toList, "old".toList⟩ := by
  refine ⟨fun hsends => ?_, by decide +kernel⟩
  let attrs : OrderedDict Text (Option Text) := .ofEntries [("a".toList, some "old".toList)]
  have hsends := hsends attrs (loadedItem textTable "1".toList none attrs) [] _ rfl rfl
  have hall : NamesAll textTable.schema attrs [] :=
    (@sendsOnly_iff _ _ _ textTable "1".toList none attrs [] textLayer2 (fun _ => .ok ()) none
      none _ rfl).mp hsends
  rcases hall "a".toList (by decide) with hkey | ⟨call, hcall, -⟩
  · revert hkey
    decide
  · cases hcall

end Boto.DynamoDB
