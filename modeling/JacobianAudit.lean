import JacobianAudit.Comparison.Draft
import JacobianAudit.Difference.Fractional
import JacobianAudit.Formula.Bench
import JacobianAudit.Monitor
import JacobianAudit.Text.RealNumeral
import JacobianAudit.Proofs.Agreement
import JacobianAudit.Proofs.Answers
import JacobianAudit.Proofs.Obstacles
import JacobianAudit.Proofs.Escapes
import JacobianAudit.Proofs.Stages
import JacobianAudit.Proofs.Verdict
import JacobianAudit.Proofs.Frames
import JacobianAudit.Proofs.Transparency
import JacobianAudit.Proofs.Recording
import JacobianAudit.Proofs.Exact
import JacobianAudit.Proofs.Lines
import JacobianAudit.Proofs.Outcomes
import JacobianAudit.Proofs.Contracts
import JacobianAudit.Proofs.Endings
import JacobianAudit.Proofs.Interruptions
import JacobianAudit.Proofs.Shapes
import JacobianAudit.Proofs.Memory
import JacobianAudit.Proofs.Library
import JacobianAudit.Proofs.Straight
import JacobianAudit.Proofs.Quadratics
import JacobianAudit.Proofs.Estimates
import JacobianAudit.Proofs.Exactness
import JacobianAudit.Proofs.Fields
import JacobianAudit.Proofs.Elimination
import JacobianAudit.Proofs.Couplings
import JacobianAudit.Proofs.Surveys
import JacobianAudit.Proofs.Thresholds
import JacobianAudit.Proofs.Deeds
import JacobianAudit.Proofs.Threads
import JacobianAudit.Proofs.Zeros
import JacobianAudit.Proofs.Masking
import JacobianAudit.Proofs.HiddenColumns
import JacobianAudit.Proofs.Histories
import JacobianAudit.Proofs.Tangents
import JacobianAudit.Proofs.Maxima
import JacobianAudit.Proofs.Standalone
import JacobianAudit.Proofs.Layouts
import JacobianAudit.Proofs.Matching
import JacobianAudit.Proofs.Coordinates
import JacobianAudit.Proofs.Tallies
import JacobianAudit.Proofs.Regrouping
import JacobianAudit.Proofs.Rotations
import JacobianAudit.Proofs.Doubling
import JacobianAudit.Proofs.Stopping
import JacobianAudit.Proofs.Recorders
import JacobianAudit.Proofs.Looks
import JacobianAudit.Proofs.Itineraries
import JacobianAudit.Proofs.Offences
import JacobianAudit.Proofs.Reports
import JacobianAudit.Proofs.Costs
import JacobianAudit.Proofs.Roundings
import JacobianAudit.Proofs.Powers
import JacobianAudit.Proofs.Divisors
import JacobianAudit.Proofs.Requests
import JacobianAudit.Proofs.Representations
import JacobianAudit.Proofs.Journals
import JacobianAudit.Proofs.Partitions
import JacobianAudit.Proofs.Discrepancies
import JacobianAudit.Proofs.Quotas
