import DialogChart.CommandLine.Run
import DialogChart.Main
import DialogChart.Proofs.Graph.Dialog
import DialogChart.Proofs.Layout.Separation
import DialogChart.Proofs.Graph.Shape
import DialogChart.Proofs.Graph.Outline
import DialogChart.Proofs.Graph.Labelling
import DialogChart.Proofs.Layout.Alternation
import DialogChart.Proofs.Layout.Embedding
import DialogChart.Proofs.Layout.Restriction
import DialogChart.Proofs.CommandLine.Run
import DialogChart.Proofs.Plot.RoundTrip
import DialogChart.Proofs.Layout.Exactness
import DialogChart.Proofs.Graph.RoundTrip
import DialogChart.Proofs.Layout.Acyclic
import DialogChart.Proofs.Layout.Columns
import DialogChart.Proofs.Layout.Bands
import DialogChart.Proofs.Layout.Damping
import DialogChart.Proofs.Layout.Frozen
import DialogChart.Proofs.Layout.SiblingOrder
import DialogChart.Proofs.FlowColors
import DialogChart.Proofs.Graph.Unreferenced
import DialogChart.Proofs.Graph.Accounting
import DialogChart.Proofs.Layout.Components
import DialogChart.Proofs.Json.Position
import DialogChart.Proofs.Number.SignedZero
import DialogChart.Proofs.Color
import DialogChart.Proofs.Layout.Piling
import DialogChart.Proofs.Layout.Preorder
import DialogChart.Proofs.Layout.Incidence
