import OneCounter.Main
import OneCounter.Solver.Journal
import OneCounter.Proofs.Acyclic
import OneCounter.Proofs.Bookkeeping
import OneCounter.Proofs.Canonical
import OneCounter.Proofs.Classification
import OneCounter.Proofs.Coherence
import OneCounter.Proofs.Dot.Layout
import OneCounter.Proofs.Dot.NodeStatement
import OneCounter.Proofs.Dot.RoundTrip
import OneCounter.Proofs.Dot.Routes
import OneCounter.Proofs.Expansion
import OneCounter.Proofs.OneWay
import OneCounter.Proofs.Reflection.Solver
import OneCounter.Proofs.RoundOrder
