import LittleScheme.Main
import LittleScheme.Proofs.Session.Exactness
import LittleScheme.Proofs.Evaluation.Ownership
import LittleScheme.Proofs.Session.Ownership
import LittleScheme.Proofs.Datum.Grammar
import LittleScheme.Proofs.Datum.Printed
import LittleScheme.Proofs.Store.Denotation
import LittleScheme.Proofs.Store.Reading
import LittleScheme.Proofs.Store.RoundTrip
import LittleScheme.Proofs.Evaluation.Containment
import LittleScheme.Proofs.Evaluation.Contents
import LittleScheme.Proofs.Session.Transparency
import LittleScheme.Proofs.Evaluation.Regime
import LittleScheme.Proofs.Store.ZonedCopy
import LittleScheme.Proofs.Evaluation.Custody
import LittleScheme.Proofs.Session.Custody
import LittleScheme.Proofs.Session.Typing
import LittleScheme.Proofs.Store.Outward
import LittleScheme.Proofs.Store.Mirror
import LittleScheme.Proofs.Store.PrintedCopy
import LittleScheme.Proofs.Datum.Refusal
import LittleScheme.Proofs.Evaluation.Legibility
import LittleScheme.Proofs.Session.Legibility
import LittleScheme.Proofs.Session.Lines
import LittleScheme.Proofs.Store.Sharing
import LittleScheme.Proofs.Session.Scoping
import LittleScheme.Proofs.Session.Unanswered
import LittleScheme.Proofs.Store.History
import LittleScheme.Proofs.Evaluation.Purity
import LittleScheme.Proofs.Store.Renaming
import LittleScheme.Proofs.Evaluation.Renaming
import LittleScheme.Proofs.Session.Renaming
import LittleScheme.Proofs.Session.Refusals
import LittleScheme.Proofs.Token.Cutting
import LittleScheme.Proofs.Store.Survival
import LittleScheme.Proofs.Store.Origin
import LittleScheme.Proofs.Store.Picturing
import LittleScheme.Proofs.Evaluation.Operands
import LittleScheme.Proofs.Evaluation.Wrapping
import LittleScheme.Proofs.Evaluation.Division
import LittleScheme.Proofs.Evaluation.Storing
import LittleScheme.Proofs.Store.Recopying
import LittleScheme.Proofs.Evaluation.Rebinding
import LittleScheme.Proofs.Evaluation.Comparison
import LittleScheme.Proofs.Store.Binding
import LittleScheme.Proofs.Store.Spine
import LittleScheme.Proofs.Evaluation.Indexing
import LittleScheme.Proofs.Evaluation.ListLaws
import LittleScheme.Proofs.Store.Traversal
import LittleScheme.Proofs.Token.Lookahead
