import RelMapper.Database.Basic
import RelMapper.Schema
namespace RelMapper.Schema

variable {σ : Type} [Database σ]

def installTable (c : CreateTable) : DatabaseM σ Unit :=
  (Database.execute c.sql []).adapt (Fault.ofStatement c.sql [])

/-- Creates tables one after the other until one fails. It is left to the caller to commit. -/
def install (cs : List CreateTable) : DatabaseM σ Unit :=
  cs.forM installTable

end RelMapper.Schema
