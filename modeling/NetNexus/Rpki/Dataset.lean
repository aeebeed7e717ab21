import NetNexus.Rpki.Worker

/-!
# The RPKI dataset

The tables that the store and the worker hold together, and the change of them that each recorded
operation stands for. What they are there for is a set of ROAs, a set of ASPAs and a set of router
keys, on which operations can be replayed.
-/

namespace Rpki

/-! ## Tables -/

/-- The data of the store and the worker. -/
structure Tables where
  roas : RoaTable
  aspas : AspaTable
  routerKeys : RouterKeyMap

namespace Tables

/-- The change that is recorded as the operation; `none` if the tables do not allow it. -/
def apply (t : Tables) : Operation → Option Tables
  | .roa .announce roa =>
    if h : t.roas.find? roa.key = none then some { t with roas := t.roas.append roa h } else none
  | .roa .withdraw roa =>
    if t.roas.find? roa.key = some roa then some { t with roas := t.roas.delete roa.key } else none
  | .routerKey .announce rk =>
    if h : t.routerKeys.find? rk.key = none then
      some { t with routerKeys := t.routerKeys.append rk h }
    else none
  | .routerKey .withdraw rk =>
    if t.routerKeys.find? rk.key = some rk then
      some { t with routerKeys := t.routerKeys.delete rk.key }
    else none
  | .aspa .announce aspa =>
    if t.aspas.find? aspa.customerAsn = none then some { t with aspas := t.aspas.upsert aspa }
    else none
  | .aspa .withdraw aspa =>
    if t.aspas.find? aspa.customerAsn = some aspa then
      some { t with aspas := t.aspas.delete aspa.customerAsn }
    else none
  | .aspaReplace oldData newData =>
    if t.aspas.find? newData.customerAsn = some oldData then
      some { t with aspas := t.aspas.upsert newData }
    else none

def applyAll (t : Tables) (operations : List Operation) : Option Tables :=
  operations.foldlM apply t

end Tables

def Worker.tables (w : Worker) : Tables where
  roas := w.store.roas
  aspas := w.store.aspas
  routerKeys := w.routerKeys

/-! ## Datasets -/

/-- What the tables stand for. -/
@[ext]
structure Dataset where
  roas : Set Roa
  aspas : Set Aspa
  routerKeys : Set RouterKey

namespace Dataset

/-- The effect of one recorded operation. -/
def apply (d : Dataset) : Operation → Dataset
  | .roa .announce roa => { d with roas := insert roa d.roas }
  | .roa .withdraw roa => { d with roas := d.roas \ {roa} }
  | .routerKey .announce rk => { d with routerKeys := insert rk d.routerKeys }
  | .routerKey .withdraw rk => { d with routerKeys := d.routerKeys \ {rk} }
  | .aspa .announce aspa => { d with aspas := insert aspa d.aspas }
  | .aspa .withdraw aspa => { d with aspas := d.aspas \ {aspa} }
  | .aspaReplace oldAspa newAspa => { d with aspas := insert newAspa (d.aspas \ {oldAspa}) }

def applyAll (d : Dataset) (operations : List Operation) : Dataset := operations.foldl apply d

end Dataset

def Tables.dataset (t : Tables) : Dataset where
  roas := {roa | roa ∈ t.roas.rows}
  aspas := {aspa | aspa ∈ t.aspas.rows}
  routerKeys := {rk | rk ∈ t.routerKeys.rows}

def Worker.dataset (w : Worker) : Dataset := w.tables.dataset

/-- How often the serial changed while the requests were handled. -/
def Worker.changes (estimateSerialOperationsBytes : List Operation → ℕ) (w : Worker) :
    List Request → ℕ
  | [] => 0
  | request :: requests =>
    let w' := w.step estimateSerialOperationsBytes request
    (if w'.cacheSerial = w.cacheSerial then 0 else 1) +
      w'.changes estimateSerialOperationsBytes requests

end Rpki
