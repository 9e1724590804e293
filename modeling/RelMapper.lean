import RelMapper.Config
import RelMapper.Database.Basic
import RelMapper.Database.Recorded
import RelMapper.Database.Script
import RelMapper.Double.Basic
import RelMapper.Double.Reader
import RelMapper.Double.Shortest
import RelMapper.Entity
import RelMapper.Fault
import RelMapper.FetchOptions
import RelMapper.Filter
import RelMapper.Json
import RelMapper.Json.Document
import RelMapper.Links.IdList
import RelMapper.Links.Plan
import RelMapper.Listing
import RelMapper.Loading.Collection
import RelMapper.Loading.Eager
import RelMapper.Loading.FollowUp
import RelMapper.Loading.Layout
import RelMapper.Loading.Lookup
import RelMapper.Model.Basic
import RelMapper.Model.Field
import RelMapper.Model.Relation
import RelMapper.Proofs.Except
import RelMapper.Proofs.Links.Deletion
import RelMapper.Proofs.Links.IdLists
import RelMapper.Proofs.Links.IdTokens
import RelMapper.Proofs.Links.Junction
import RelMapper.Proofs.Links.LoadedUpdates
import RelMapper.Proofs.Links.Plans
import RelMapper.Proofs.Links.Reconciliation
import RelMapper.Proofs.Links.Repetition
import RelMapper.Proofs.Links.Shelf
import RelMapper.Proofs.Links.Writes
import RelMapper.Proofs.Loading.Aggregates
import RelMapper.Proofs.Loading.Collections
import RelMapper.Proofs.Loading.Counting
import RelMapper.Proofs.Loading.Eager
import RelMapper.Proofs.Loading.FollowUps
import RelMapper.Proofs.Loading.ForeignRows
import RelMapper.Proofs.Loading.Growth
import RelMapper.Proofs.Loading.JoinedRows
import RelMapper.Proofs.Loading.Narrowing
import RelMapper.Proofs.Loading.Paths
import RelMapper.Proofs.Loading.Positions
import RelMapper.Proofs.Loading.SourceNames
import RelMapper.Proofs.Schema.Creation
import RelMapper.Proofs.Schema.JunctionColumns
import RelMapper.Proofs.Schema.TableNames
import RelMapper.Proofs.Selection.Equalities
import RelMapper.Proofs.Selection.JunctionJoins
import RelMapper.Proofs.Selection.Junctions
import RelMapper.Proofs.Selection.Lowering
import RelMapper.Proofs.Selection.Noninterference
import RelMapper.Proofs.Selection.Qualifiers
import RelMapper.Proofs.Selection.Restrictions
import RelMapper.Proofs.Session.Agreement
import RelMapper.Proofs.Session.Atomicity
import RelMapper.Proofs.Session.Columns
import RelMapper.Proofs.Session.Cost
import RelMapper.Proofs.Session.FailedStatements
import RelMapper.Proofs.Session.InsertIds
import RelMapper.Proofs.Session.LinkOwners
import RelMapper.Proofs.Session.Log
import RelMapper.Proofs.Session.Nesting
import RelMapper.Proofs.Session.Reads
import RelMapper.Proofs.Session.Registration
import RelMapper.Proofs.Session.Resolution
import RelMapper.Proofs.Session.Trace
import RelMapper.Proofs.Sql.Alignment
import RelMapper.Proofs.Sql.Groups
import RelMapper.Proofs.Sql.JoinTrees
import RelMapper.Proofs.Sql.Joins
import RelMapper.Proofs.Sql.LeftJoins
import RelMapper.Proofs.Sql.Names
import RelMapper.Proofs.Sql.Pages
import RelMapper.Proofs.Sql.Placeholders
import RelMapper.Proofs.Sql.Precedence
import RelMapper.Proofs.Sql.Shape
import RelMapper.Proofs.Sql.Totals
import RelMapper.Proofs.Sql.Truth
import RelMapper.Proofs.Sql.Wording
import RelMapper.Proofs.Text.ByteOrder
import RelMapper.Proofs.Text.Numerals
import RelMapper.Registry
import RelMapper.Row
import RelMapper.Schema
import RelMapper.Schema.Install
import RelMapper.Selection
import RelMapper.Session.Basic
import RelMapper.Session.Changes
import RelMapper.Session.Operation
import RelMapper.Session.Read
import RelMapper.Session.Write
import RelMapper.Slots
import RelMapper.Sql.Clause
import RelMapper.Sql.Column
import RelMapper.Sql.Expr
import RelMapper.Sql.Fragment
import RelMapper.Sql.Literal
import RelMapper.Sql.Predicate
import RelMapper.Sql.Query
import RelMapper.Sql.Statement
import RelMapper.Text.Blank
import RelMapper.Text.DecimalDigit
import RelMapper.Text.Integer
import RelMapper.Text.Split
import RelMapper.Value
